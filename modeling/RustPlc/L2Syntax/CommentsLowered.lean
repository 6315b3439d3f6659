import RustPlc.L2Syntax.CommentsAccess

/-!
# Comments in a source file
-/
namespace RustPlc.Syntax

open RustPlc.Ir Node

variable [F64Ops] {n : Node}

theorem belowAgree (n : Node) : BelowAgree n := fun _ _ h hk => expression_agree h hk

theorem Sound.fieldExpression (h : Sound n) {f : Field} (hr : exprRole f ∈ roles n.kind) :
    (fieldExpression n f).unranged = fieldExpression n.bare f ↔
      ∀ c ∈ n.children, (exprRole f).selects c = true → Harmless c :=
  h.fieldExpression_agree hr (belowAgree n)

theorem Sound.optExpression (h : Sound n) {f : Field} (hr : exprRole f ∈ roles n.kind) :
    ((n.childByFieldName f).map lowerExpression).map Expression.unranged =
        (n.bare.childByFieldName f).map lowerExpression ↔
      ∀ c ∈ n.children, (exprRole f).selects c = true → Harmless c :=
  h.optExpression_agree hr (belowAgree n)

omit [F64Ops] in
/-- A node whose children are not counted is as harmless as what its rule
selects. -/
theorem Sound.uncounted (h : Sound n) {rs : List Role} (hroles : roles n.kind = rs)
    (hk : n.kind ∉ countedKinds) :
    Harmless n ↔ ∀ r ∈ rs, ∀ c ∈ n.children, r.selects c = true → Harmless c := by
  rw [h.harmless_roles, hroles]
  exact ⟨fun ho => ho.2, fun ho => ⟨harmlessAt_uncounted hk, ho⟩⟩

/-! ## Data types -/

theorem arrayRange_agree (h : Sound n) (hk : n.kind = .arrayRange) :
    ((lowerArrayRange n).1.unranged, (lowerArrayRange n).2.unranged) = lowerArrayRange n.bare ↔
      Harmless n := by
  have hroles : roles n.kind = [exprRole .lower, exprRole .upper] := by rw [hk]; rfl
  rw [h.uncounted hroles (by rw [hk]; decide)]
  simp only [lowerArrayRange, Prod.mk.injEq, List.forall_mem_cons, List.not_mem_nil, false_imp_iff,
    implies_true, and_true]
  rw [h.fieldExpression (by simp [hroles]), h.fieldExpression (by simp [hroles])]

omit [F64Ops] in
theorem wide_eq (rest : List Char) {w : List Char} (hw : w.map Char.toUpper = "STRING".toList ∨
    w.map Char.toUpper = "WSTRING".toList) :
    "WSTRING".toList.isPrefixOf ((w ++ rest).map Char.toUpper) =
      "WSTRING".toList.isPrefixOf (w.map Char.toUpper) := by
  rw [List.map_append]
  rcases hw with hw | hw <;> rw [hw]
  · rfl
  · simp

theorem stringType_agree (h : Sound n) (hk : n.kind = .stringType) :
    (lowerStringType n).unranged = lowerStringType n.bare ↔ Harmless n := by
  have hroles : roles n.kind = [exprRole .length] := by rw [hk]; rfl
  have hord := h.shape.ordered
  simp only [Ordered, kind_bare, hk] at hord
  obtain ⟨w0, cs0, hcs, hw0, hword⟩ := hord
  have hempty : n.word = "" := by simpa using h.shape.lexical.inner (by simp [hcs])
  -- the keyword stands first, with and without comments
  have hwide : "WSTRING".toList.isPrefixOf (n.chars.map Char.toUpper) =
      "WSTRING".toList.isPrefixOf (n.bare.chars.map Char.toUpper) := by
    have hb : n.bare.chars = w0.word.toList ++ charsOf cs0 := by
      rw [chars_eq, word_bare, hempty, hcs, charsOf, chars_eq, hw0]
      simp [charsOf]
    cases hn : n.children with
    | nil => simp [children_bare, hn] at hcs
    | cons c cs =>
      have hc : c.isComment = false :=
        h.placed.ends (by rw [hk]; decide) c (.inl (by simp [hn]))
      have hcw : c.bare = w0 := by
        have hfirst := hcs
        simp only [children_bare, hn, List.filter_cons, hc, Bool.not_false, if_true, List.map_cons,
          List.cons.injEq] at hfirst
        exact hfirst.1
      have hleaf := h.leaf_chars (c := c) (by simp [hn]) hc (by rw [hcw, hw0])
      have hn' : n.chars = w0.word.toList ++ charsOf cs := by
        rw [chars_eq, hempty, hn, charsOf, hleaf.2, chars_eq, hcw, hw0]
        simp [charsOf]
      rw [hn', hb, wide_eq _ hword, wide_eq _ hword]
  rw [h.uncounted hroles (by rw [hk]; decide)]
  simp only [lowerStringType, DataType.unranged, hwide, DataType.string.injEq, true_and,
    List.forall_mem_cons, List.not_mem_nil, false_imp_iff, implies_true, and_true]
  rw [h.optExpression (by simp [hroles])]

theorem token_agree (h : Sound n) (hk : n.kind = .token) :
    (lowerDataType n).unranged = lowerDataType n.bare ↔ Harmless n := by
  have hw := h.word (by rw [hk]; decide)
  have ht := h.word_text (by rw [hk]; decide)
  have hord := h.shape.ordered
  simp only [Ordered, kind_bare, hk] at hord
  have hleaf := h.leaf (by rw [hk]; decide) hord
  refine iff_of_true ?_ hw.2
  rw [lowerDataType, lowerDataType]
  simp only [kind_bare, hk, ← ht]
  cases tryParseElementaryType n.text with
  | some e => rfl
  | none =>
    simp only [reduceCtorEq, if_false]
    rw [lowerDataTypeFromChildren, lowerDataTypeFromChildren, onNamed_eq, onNamed_eq]
    simp [namedChildren, hord, hleaf, ← ht, DataType.unranged]

theorem lowerDataType_array (hk : n.kind = .arrayType) : lowerDataType n =
    .array ((n.childrenOfKind .arrayRange).map lowerArrayRange) (fieldDataType n .elementType) := by
  rw [lowerDataType]
  simp only [hk]
  rw [lowerArrayType, onField_eq]
  rfl

theorem lowerDataType_ref (hk : n.kind = .refType) :
    lowerDataType n = .ref (fieldDataType n .targetType) := by
  rw [lowerDataType]
  simp only [hk, onField_eq]
  rfl

/-- **Data types.** -/
theorem dataType_agree {n : Node} (h : Sound n) (hk : n.kind ∈ dataTypeKinds) :
    (lowerDataType n).unranged = lowerDataType n.bare ↔ Harmless n := by
  have hfield {f : Field} (hr : typeRole f ∈ roles n.kind) :
      (fieldDataType n f).unranged = fieldDataType n.bare f ↔
        ∀ c ∈ n.children, (typeRole f).selects c = true → Harmless c :=
    h.fieldD_agree hr (fun c _ hs hkind => dataType_agree hs hkind) rfl
  simp only [dataTypeKinds, List.mem_cons, List.not_mem_nil, or_false] at hk
  rcases hk with hk | hk | hk | hk | hk
  · exact token_agree h hk
  · have hroles : roles n.kind = [.children .arrayRange, typeRole .elementType] := by rw [hk]; rfl
    rw [lowerDataType_array hk, lowerDataType_array (by simpa using hk), DataType.unranged,
      h.uncounted hroles (by rw [hk]; decide)]
    simp only [DataType.array.injEq, List.forall_mem_cons, List.not_mem_nil, false_imp_iff,
      implies_true, and_true]
    rw [hfield (by simp [hroles])]
    exact and_congr (h.children_agree (by simp [hroles]) fun c _ hs hkind => arrayRange_agree hs hkind)
      .rfl
  · rw [← stringType_agree h hk, lowerDataType, lowerDataType]
    simp only [kind_bare, hk]
  · have hroles : roles n.kind = [typeRole .targetType] := by rw [hk]; rfl
    rw [lowerDataType_ref hk, lowerDataType_ref (by simpa using hk), DataType.unranged,
      h.uncounted hroles (by rw [hk]; decide)]
    simp only [DataType.ref.injEq, List.forall_mem_cons, List.not_mem_nil, false_imp_iff,
      implies_true, and_true]
    rw [hfield (by simp [hroles])]
  · rw [← qualified_agree h hk, lowerDataType, lowerDataType]
    simp only [kind_bare, hk, DataType.unranged, DataType.userDefined.injEq]
termination_by sizeOf n

theorem Sound.fieldDataType (h : Sound n) {f : Field} (hr : typeRole f ∈ roles n.kind) :
    (fieldDataType n f).unranged = fieldDataType n.bare f ↔
      ∀ c ∈ n.children, (typeRole f).selects c = true → Harmless c :=
  h.fieldD_agree hr (fun _ _ hs hkind => dataType_agree hs hkind) rfl

theorem Sound.optDataType (h : Sound n) {f : Field} (hr : typeRole f ∈ roles n.kind) :
    ((n.childByFieldName f).map lowerDataType).map DataType.unranged =
        (n.bare.childByFieldName f).map lowerDataType ↔
      ∀ c ∈ n.children, (typeRole f).selects c = true → Harmless c :=
  h.field_agree hr fun _ _ hs hkind => dataType_agree hs hkind

/-! ## Statements -/

theorem assignment_agree (h : Sound n) (hk : n.kind = .assignmentStatement) :
    (lowerAssignment n).unranged = lowerAssignment n.bare ↔ Harmless n := by
  have hroles : roles n.kind = [.field .target [.variableAccess], exprRole .value] := by rw [hk]; rfl
  have htarget := h.fieldD_agree (f := .target) (g := lowerVariableAccess)
    (u := VariableAccess.unranged) (d := dummyVariableAccess n) (e := dummyVariableAccess n.bare)
    (by rw [hroles]; exact List.mem_cons_self)
    (fun c _ hs hkind => access_agree hs (by simpa using hkind) (belowAgree c))
    (by simp [dummyVariableAccess, VariableAccess.unranged, AccessPart.unranged, dummyIdentifier,
      Identifier.unranged])
  rw [h.uncounted hroles (by rw [hk]; decide)]
  simp only [lowerAssignment, Statement.unranged, Statement.assignment.injEq, range_bare, and_true,
    List.forall_mem_cons, List.not_mem_nil, false_imp_iff, implies_true]
  rw [htarget, h.fieldExpression (by simp [hroles])]

omit [F64Ops] in
/-- The call of a call statement, with and without comments. -/
theorem Sound.call (h : Sound n) (hk : n.kind = .functionCallStatement) :
    n.namedChildren.find? (·.kind == .functionCall) = n.children.find? (Role.child .functionCall).selects ∧
      n.bare.namedChildren.find? (·.kind == .functionCall) =
        n.bare.children.find? (Role.child .functionCall).selects := by
  have hord := h.shape.ordered
  simp only [Ordered, kind_bare, hk] at hord
  have hfind (m : Node) (hm : ∀ c ∈ m.children, c.kind = .functionCall → c.named = true) :
      m.namedChildren.find? (·.kind == .functionCall) =
        m.children.find? (Role.child .functionCall).selects := by
    rw [namedChildren, ← List.head?_filter, ← List.head?_filter, List.filter_filter]
    congr 1
    refine List.filter_congr fun c hc => ?_
    by_cases hck : c.kind = .functionCall
    · simp [Role.selects, hck, hm c hc hck]
    · simp [Role.selects, hck]
  refine ⟨hfind n fun c hc hck => ?_, hfind n.bare hord⟩
  have hn : c.isComment = false := by simp [isComment, hck]
  simpa using hord c.bare (Sound.bare_mem hc hn) (by simpa using hck)

theorem callStatement_agree (h : Sound n) (hk : n.kind = .functionCallStatement) :
    (lowerCallStatement n).map Statement.unranged = lowerCallStatement n.bare ↔ Harmless n := by
  have hroles : roles n.kind = [.child .functionCall] := by rw [hk]; rfl
  rw [h.uncounted hroles (by rw [hk]; decide), lowerCallStatement, lowerCallStatement,
    (h.call hk).1, (h.call hk).2]
  simp only [List.forall_mem_cons, List.not_mem_nil, false_imp_iff, implies_true, and_true]
  refine h.head_agree (by simp [hroles]) rfl fun c _ hs hkind => ?_
  rw [← functionCall_agree hs (by simpa [Role.kinds] using hkind) (belowAgree c)]
  simp only [Statement.unranged, Statement.functionCall.injEq]
  rw [FunctionCallExpr.unranged]
  cases lowerFunctionCall c.bare
  simp

/-- What holds of the statement lists below a node. -/
def ListsBelowAgree (n : Node) : Prop :=
  ∀ c, sizeOf c < sizeOf n → Sound c → c.kind = .statementList →
    ((lowerStatementList c).map Statement.unranged = lowerStatementList c.bare ↔ Harmless c)

theorem ListsBelowAgree.below {c : Node} (ih : ListsBelowAgree n) (hc : sizeOf c < sizeOf n) :
    ListsBelowAgree c :=
  fun d hd => ih d (by omega)

theorem fieldStatements_eq (n : Node) (f : Field) : fieldStatements n f =
    ((n.childByFieldName f).map fun c =>
      if c.kind = .statementList then lowerStatementList c else []).getD [] := by
  rw [fieldStatements, onField_eq]

theorem Sound.fieldStatements (h : Sound n) {f : Field}
    (hr : .field f [.statementList] ∈ roles n.kind) (ih : ListsBelowAgree n) :
    (fieldStatements n f).map Statement.unranged = fieldStatements n.bare f ↔
      ∀ c ∈ n.children, (Role.field f [.statementList]).selects c = true → Harmless c := by
  rw [fieldStatements_eq, fieldStatements_eq]
  refine h.fieldD_agree hr (fun c hc hs hkind => ?_) rfl
  have hlist : c.kind = .statementList := by simpa using hkind
  rw [kind_bare, if_pos hlist, if_pos hlist]
  exact ih c hc hs hlist

theorem elsif_agree (h : Sound n) (hk : n.kind = .elsifClause) (ih : ListsBelowAgree n) :
    (lowerElsifClause n).unranged = lowerElsifClause n.bare ↔ Harmless n := by
  have hroles : roles n.kind = [exprRole .condition, bodyRole] := by rw [hk]; rfl
  rw [h.uncounted hroles (by rw [hk]; decide), lowerElsifClause, lowerElsifClause]
  simp only [ElsifClause.unranged, unrangedStatements_eq, ElsifClause.mk.injEq, List.forall_mem_cons,
    List.not_mem_nil, false_imp_iff, implies_true, and_true]
  rw [h.fieldExpression (by simp [hroles]), h.fieldStatements (by simp [hroles, bodyRole]) ih]
  rfl

theorem else_agree (h : Sound n) (hk : n.kind = .elseClause) (ih : ListsBelowAgree n) :
    (lowerElseBody n).map Statement.unranged = lowerElseBody n.bare ↔ Harmless n := by
  have hroles : roles n.kind = [bodyRole] := by rw [hk]; rfl
  rw [h.uncounted hroles (by rw [hk]; decide), lowerElseBody, lowerElseBody]
  simp only [List.forall_mem_cons, List.not_mem_nil, false_imp_iff, implies_true, and_true]
  exact h.fieldStatements (by simp [hroles, bodyRole]) ih

/-! ## CASE -/

omit [F64Ops] in
/-- The children of a range: its ends, and comments beside the dots. -/
theorem Sound.range (h : Sound n) (hroot : n.kind ≠ .sourceFile) {a d b : Node}
    (hcs : n.bare.children = [a, d, b]) :
    ∃ a' d' b' between, n.children = a' :: between ++ [b'] ∧ a'.bare = a ∧ d'.bare = d ∧
      b'.bare = b ∧ (between.filter fun c => !c.isComment) = [d'] := by
  obtain ⟨a', d', b', hsig, rfl, rfl, rfl⟩ := Sound.three hcs
  cases hl : n.children with
  | nil => simp [hl] at hsig
  | cons x xs =>
    have hx : x.isComment = false := h.placed.ends hroot x (.inl (by simp [hl]))
    rw [hl, List.filter_cons, hx] at hsig
    simp only [Bool.not_false, if_true, List.cons.injEq] at hsig
    obtain ⟨rfl, hxs⟩ := hsig
    have hne : xs ≠ [] := by
      rintro rfl
      simp at hxs
    obtain ⟨between, y, rfl⟩ : ∃ l y, xs = l ++ [y] := ⟨_, _, (List.dropLast_append_getLast hne).symm⟩
    have hy : y.isComment = false := by
      refine h.placed.ends hroot y (.inr ?_)
      rw [hl, ← List.cons_append]
      exact List.getLast?_concat ..
    rw [List.filter_append, List.filter_cons, hy] at hxs
    simp only [Bool.not_false, if_true, List.filter_nil] at hxs
    have hxs : (between.filter fun c => !c.isComment) ++ [y] = [d'] ++ [b'] := hxs
    obtain ⟨hbetween, hlast⟩ := List.append_inj' hxs rfl
    obtain rfl : y = b' := by simpa using hlast
    exact ⟨x, d', y, between, rfl, rfl, rfl, rfl, hbetween⟩

theorem selector_agree (h : Sound n) (hk : n.kind = .caseSelector) :
    (lowerCaseSelector n).unranged = lowerCaseSelector n.bare ↔ Harmless n := by
  have hroot : n.kind ≠ .sourceFile := by rw [hk]; decide
  have hord := h.shape.ordered
  simp only [Ordered, kind_bare, hk] at hord
  obtain ⟨e, hcs, hnamed, hkind⟩ | ⟨a0, d0, b0, hcs, hd, han, hbn, hak, hbk⟩ := hord
  · -- a single expression has no sibling to put a comment beside
    obtain hnil | ⟨c, hc, hn, hb⟩ := h.alone hroot (by simp [hcs])
    · simp [children_bare, hnil] at hcs
    · obtain rfl : c.bare = e := by simpa [hb] using hcs
      have hcn : c.named = true := by simpa using hnamed
      have hat : HarmlessAt n := by simp [HarmlessAt, hk, hc, hn]
      rw [harmless_iff, hc]
      simp only [lowerCaseSelector, namedChildren, hc, hb, named_bare, hcn, List.filter_cons_of_pos,
        List.filter_nil, CaseSelector.unranged, CaseSelector.single.injEq, hat, true_and,
        List.forall_mem_cons, List.not_mem_nil, false_imp_iff, implies_true, and_true]
      exact expression_agree (h.child (by simp [hc]) hn) (by simpa using hkind)
  · obtain ⟨a, d, b, between, hl, rfl, rfl, rfl, hbetween⟩ := h.range hroot hcs
    simp only [kind_bare, named_bare] at han hbn hak hbk
    have hdn : d.named = false := by simpa using hd.anonymous
    have hmem : ∀ c ∈ between, c.isComment = true ∨ c = d := by
      intro c hc
      cases hn : c.isComment with
      | true => exact .inl rfl
      | false =>
        have : c ∈ between.filter fun c => !c.isComment := List.mem_filter.mpr ⟨hc, by simp [hn]⟩
        rw [hbetween] at this
        exact .inr (by simpa using this)
    have hac : a.isComment = false := h.placed.ends hroot a (.inl (by simp [hl]))
    have hbc : b.isComment = false := h.placed.ends hroot b (.inr (by rw [hl]; exact List.getLast?_concat ..))
    have hdc : d ∈ between := List.mem_of_mem_filter (p := fun c => !c.isComment) (by simp [hbetween])
    have hdh : Harmless d := h.quiet (by simp [hl, hdc]) hd.children
    have hharmless : Harmless n ↔ HarmlessAt n ∧ Harmless a ∧ Harmless b := by
      rw [harmless_iff]
      refine and_congr_right fun _ => ⟨fun hall => ⟨hall a (by simp [hl]), hall b (by simp [hl])⟩, ?_⟩
      rintro ⟨ha, hb⟩ c hc
      rw [hl, List.mem_append, List.mem_cons, List.mem_singleton] at hc
      rcases hc with (rfl | hc) | rfl
      · exact ha
      · obtain hn | rfl := hmem c hc
        · exact harmless_leaf (h.placed.extra c (by simp [hl, hc]) hn).children
        · exact hdh
      · exact hb
    have hbare : lowerCaseSelector n.bare = .range (lowerExpression a.bare) (lowerExpression b.bare) := by
      simp [lowerCaseSelector, namedChildren, hcs, han, hbn, hdn]
    have haa := expression_agree (h.child (c := a) (by simp [hl]) hac) hak
    have hbs := h.child (c := b) (by simp [hl]) hbc
    rw [hharmless, hbare]
    cases hnc : between.filter (·.named) with
    | nil =>
      have hno : ∀ c ∈ n.children, c.isComment = false := by
        intro c hc
        rw [hl, List.mem_append, List.mem_cons, List.mem_singleton] at hc
        rcases hc with (rfl | hc) | rfl
        · exact hac
        · cases hn : c.isComment with
          | false => rfl
          | true =>
            have hx := h.placed.extra c (by simp [hl, hc]) hn
            have : c ∈ between.filter (·.named) := List.mem_filter.mpr ⟨hc, hx.named⟩
            simp [hnc] at this
        · exact hbc
      have hat : HarmlessAt n := by
        simp only [HarmlessAt, hk]
        rintro ⟨c, hc, hcom⟩
        simp [hno c hc] at hcom
      have hlower : lowerCaseSelector n = .range (lowerExpression a) (lowerExpression b) := by
        simp [lowerCaseSelector, namedChildren, hl, han, hbn, hnc]
      rw [hlower]
      simp only [CaseSelector.unranged, CaseSelector.range.injEq, hat, true_and]
      rw [haa, expression_agree hbs hbk]
    | cons x xs =>
      have hx : x ∈ between.filter (·.named) := by simp [hnc]
      obtain ⟨hxm, hxn⟩ := List.mem_filter.mp hx
      have hxc : x.isComment = true := by
        obtain hxc | rfl := hmem x hxm
        · exact hxc
        · simp [hdn] at hxn
      have hextra := h.placed.extra x (by simp [hl, hxm]) hxc
      have hat : HarmlessAt n ↔ b.isZero = true := by
        simp only [HarmlessAt, hk]
        have hlast : n.children.getLast? = some b := by
          rw [hl]
          exact List.getLast?_concat ..
        rw [hlast]
        constructor
        · intro hz
          obtain ⟨e, he, hez⟩ := hz ⟨x, by simp [hl, hxm], hxc⟩
          simp only [Option.some.injEq] at he
          exact he ▸ hez
        · intro hz _
          exact ⟨b, rfl, hz⟩
      have hlower : lowerCaseSelector n = .range (lowerExpression a) (lowerExpression x) := by
        simp [lowerCaseSelector, namedChildren, hl, han, hnc]
      rw [hlower, hat]
      simp only [CaseSelector.unranged, CaseSelector.range.injEq]
      rw [lowerExpression_comment hextra, Expression.unranged, eq_comm (b := lowerExpression b.bare),
        lowerExpression_zero hbs hbk, haa]
      constructor
      · rintro ⟨ha, hz⟩
        have hint : b.kind = .integerLiteral := by
          simp only [isZero, Bool.and_eq_true, beq_iff_eq] at hz
          exact hz.1
        exact ⟨hz, ha, (hbs.word (by rw [hint]; decide)).2⟩
      · rintro ⟨hz, ha, -⟩
        exact ⟨ha, hz⟩

theorem branch_agree (h : Sound n) (hk : n.kind = .caseBranch) (ih : ListsBelowAgree n) :
    (lowerCaseBranch n).unranged = lowerCaseBranch n.bare ↔ Harmless n := by
  have hroles : roles n.kind = [.children .caseSelector, .child .statementList] := by rw [hk]; rfl
  have hsel := h.children_agree (k := .caseSelector) (g := lowerCaseSelector)
    (u := CaseSelector.unranged) (by simp [hroles]) fun c _ hs hkind => selector_agree hs hkind
  have hbody := h.child_agree (k := .statementList) (g := lowerStatementList)
    (u := List.map Statement.unranged) (by simp [hroles]) ih
  have hsome : (n.bare.childrenOfKind .statementList).length =
      (n.childrenOfKind .statementList).length := by
    rw [childrenOfKind_bare (by decide), List.length_map]
  rw [h.uncounted hroles (by rw [hk]; decide), lowerCaseBranch, lowerCaseBranch, onKind_eq, onKind_eq]
  simp only [CaseBranch.unranged, unrangedStatements_eq, CaseBranch.mk.injEq, List.forall_mem_cons,
    List.not_mem_nil, false_imp_iff, implies_true, and_true]
  rw [hsel, ← hbody]
  refine and_congr_right fun _ => ?_
  -- a missing body is the empty one on both sides
  cases hl : n.childrenOfKind .statementList with
  | nil =>
    rw [hl] at hsome
    rw [List.length_eq_zero_iff.mp hsome]
    simp
  | cons c cs =>
    obtain ⟨c0, cs0, hl0⟩ : ∃ c0 cs0, n.bare.childrenOfKind .statementList = c0 :: cs0 := by
      rw [hl] at hsome
      exact List.exists_cons_of_length_eq_add_one hsome
    rw [hl0]
    simp [List.getLast?_cons]

theorem lowerIfStmt_eq (n : Node) : lowerIfStmt n =
    .ifStmt (fieldExpression n .condition) (fieldStatements n .consequence)
      ((n.childrenOfKind .elsifClause).map lowerElsifClause)
      ((n.childrenOfKind .elseClause).map lowerElseBody).getLast? n.range := by
  rw [lowerIfStmt, onKind_eq, onKind_eq]

theorem if_agree (h : Sound n) (hk : n.kind = .ifStatement) (ih : ListsBelowAgree n) :
    (lowerIfStmt n).unranged = lowerIfStmt n.bare ↔ Harmless n := by
  have hroles : roles n.kind = [exprRole .condition, .field .consequence [.statementList],
      .children .elsifClause, .child .elseClause] := by rw [hk]; rfl
  have helsif := h.children_agree (k := .elsifClause) (g := lowerElsifClause)
    (u := ElsifClause.unranged) (by simp [hroles])
    fun c hc hs hkind => elsif_agree hs hkind (ih.below hc)
  have helse := h.child_agree (k := .elseClause) (g := lowerElseBody)
    (u := List.map Statement.unranged) (by simp [hroles])
    fun c hc hs hkind => else_agree hs hkind (ih.below hc)
  rw [h.uncounted hroles (by rw [hk]; decide), lowerIfStmt_eq, lowerIfStmt_eq]
  simp only [Statement.unranged, unrangedStatements_eq, unrangedElsifs_eq, unrangedElse_eq,
    Statement.ifStmt.injEq, range_bare, and_true, List.forall_mem_cons, List.not_mem_nil,
    false_imp_iff, implies_true]
  rw [h.fieldExpression (by simp [hroles]), h.fieldStatements (by simp [hroles]) ih, helsif, helse]

theorem lowerCaseStmt_eq (n : Node) : lowerCaseStmt n =
    .caseStmt (fieldExpression n .expression) ((n.childrenOfKind .caseBranch).map lowerCaseBranch)
      ((n.childrenOfKind .elseClause).map lowerElseBody).getLast? n.range := by
  rw [lowerCaseStmt, onKind_eq, onKind_eq]

theorem case_agree (h : Sound n) (hk : n.kind = .caseStatement) (ih : ListsBelowAgree n) :
    (lowerCaseStmt n).unranged = lowerCaseStmt n.bare ↔ Harmless n := by
  have hroles : roles n.kind =
      [exprRole .expression, .children .caseBranch, .child .elseClause] := by rw [hk]; rfl
  have hbranches := h.children_agree (k := .caseBranch) (g := lowerCaseBranch)
    (u := CaseBranch.unranged) (by simp [hroles])
    fun c hc hs hkind => branch_agree hs hkind (ih.below hc)
  have helse := h.child_agree (k := .elseClause) (g := lowerElseBody)
    (u := List.map Statement.unranged) (by simp [hroles])
    fun c hc hs hkind => else_agree hs hkind (ih.below hc)
  rw [h.uncounted hroles (by rw [hk]; decide), lowerCaseStmt_eq, lowerCaseStmt_eq]
  simp only [Statement.unranged, unrangedBranches_eq, unrangedElse_eq, Statement.caseStmt.injEq,
    range_bare, and_true, List.forall_mem_cons, List.not_mem_nil, false_imp_iff, implies_true]
  rw [h.fieldExpression (by simp [hroles]), hbranches, helse]

/-! ## Loops and lists -/

theorem for_agree (h : Sound n) (hk : n.kind = .forStatement) (ih : ListsBelowAgree n) :
    (lowerForStmt n).unranged = lowerForStmt n.bare ↔ Harmless n := by
  have hroles : roles n.kind = [.field .variable [.identifier], exprRole .from, exprRole .to,
      exprRole .step, bodyRole] := by rw [hk]; rfl
  have hvar : Role.field .variable [.identifier] ∈ roles n.kind := by
    rw [hroles]; exact List.mem_cons_self
  have hname := h.fieldIdentifier hvar (by decide)
  simp only [Syntax.fieldIdentifier] at hname
  rw [h.uncounted hroles (by rw [hk]; decide), lowerForStmt, lowerForStmt]
  simp only [Statement.unranged, unrangedStatements_eq, hname, Statement.forStmt.injEq, range_bare,
    true_and, and_true, List.forall_mem_cons, List.not_mem_nil, false_imp_iff, implies_true]
  rw [h.fieldExpression (by simp [hroles]), h.fieldExpression (by simp [hroles]),
    h.optExpression (by simp [hroles]), h.fieldStatements (by simp [hroles, bodyRole]) ih]
  exact ⟨fun ho => ⟨(h.field_word hvar (by decide)).2, ho⟩, fun ho => ho.2⟩

theorem while_agree (h : Sound n) (hk : n.kind = .whileStatement) (ih : ListsBelowAgree n) :
    (lowerWhileStmt n).unranged = lowerWhileStmt n.bare ↔ Harmless n := by
  have hroles : roles n.kind = [exprRole .condition, bodyRole] := by rw [hk]; rfl
  rw [h.uncounted hroles (by rw [hk]; decide), lowerWhileStmt, lowerWhileStmt]
  simp only [Statement.unranged, unrangedStatements_eq, Statement.whileStmt.injEq, range_bare,
    and_true, List.forall_mem_cons, List.not_mem_nil, false_imp_iff, implies_true]
  rw [h.fieldExpression (by simp [hroles]), h.fieldStatements (by simp [hroles, bodyRole]) ih]
  rfl

theorem repeat_agree (h : Sound n) (hk : n.kind = .repeatStatement) (ih : ListsBelowAgree n) :
    (lowerRepeatStmt n).unranged = lowerRepeatStmt n.bare ↔ Harmless n := by
  have hroles : roles n.kind = [bodyRole, exprRole .condition] := by rw [hk]; rfl
  rw [h.uncounted hroles (by rw [hk]; decide), lowerRepeatStmt, lowerRepeatStmt]
  simp only [Statement.unranged, unrangedStatements_eq, Statement.repeatStmt.injEq, range_bare,
    and_true, List.forall_mem_cons, List.not_mem_nil, false_imp_iff, implies_true]
  rw [h.fieldExpression (by simp [hroles]), h.fieldStatements (by simp [hroles, bodyRole]) ih]
  rfl

theorem statement_agree (h : Sound n) (hk : n.kind ∈ statementKinds) (ih : ListsBelowAgree n) :
    ((lowerStatement n).map Statement.unranged = lowerStatement n.bare ↔ Harmless n) ∧
      (lowerStatement n).isSome = (lowerStatement n.bare).isSome := by
  rw [lowerStatement, lowerStatement]
  simp only [kind_bare, range_bare]
  simp only [statementKinds, List.mem_cons, List.not_mem_nil, or_false] at hk
  rcases hk with hk | hk | hk | hk | hk | hk | hk | hk | hk | hk
  · simp only [hk, Option.map_some, Option.some.injEq, Option.isSome_some, and_true]
    exact assignment_agree h hk
  · simp only [hk]
    refine ⟨callStatement_agree h hk, ?_⟩
    have hfind := congrArg List.head? (h.selected_bare (r := .child .functionCall) (by simp [hk, roles]))
    rw [List.head?_map, List.head?_filter, List.head?_filter] at hfind
    rw [lowerCallStatement, lowerCallStatement, (h.call hk).1, (h.call hk).2, hfind]
    simp
  · simp only [hk, Option.map_some, Option.some.injEq, Option.isSome_some, and_true]
    exact if_agree h hk ih
  · simp only [hk, Option.map_some, Option.some.injEq, Option.isSome_some, and_true]
    exact case_agree h hk ih
  · simp only [hk, Option.map_some, Option.some.injEq, Option.isSome_some, and_true]
    exact for_agree h hk ih
  · simp only [hk, Option.map_some, Option.some.injEq, Option.isSome_some, and_true]
    exact while_agree h hk ih
  · simp only [hk, Option.map_some, Option.some.injEq, Option.isSome_some, and_true]
    exact repeat_agree h hk ih
  all_goals
    simp only [hk, Option.map_some, Statement.unranged, Option.isSome_some, and_true, true_iff]
    exact (h.uncounted (show roles n.kind = [] by rw [hk]; rfl) (by rw [hk]; decide)).mpr (by simp)

omit [F64Ops] in
/-- Lists made by `filter_map` agree when they agree element by element. -/
theorem filterMap_agree {α : Type} {f f0 : Node → Option α} {u : α → α} (xs : List Node)
    (hsome : ∀ c ∈ xs, (f c).isSome = (f0 c).isSome) :
    (xs.filterMap f).map u = xs.filterMap f0 ↔ ∀ c ∈ xs, (f c).map u = f0 c := by
  induction xs with
  | nil => simp
  | cons c cs ih =>
    have hc := hsome c List.mem_cons_self
    rw [List.forall_mem_cons, ← ih fun d hd => hsome d (List.mem_cons_of_mem _ hd),
      List.filterMap_cons, List.filterMap_cons]
    cases hf : f c with
    | none =>
      cases hf0 : f0 c with
      | none => simp
      | some b => simp [hf, hf0] at hc
    | some a =>
      cases hf0 : f0 c with
      | none => simp [hf, hf0] at hc
      | some b => simp

omit [F64Ops] in
theorem filterMap_bareOf {α : Type} (f : Node → Option α) (xs : List Node) :
    (bareOf xs).filterMap f = xs.filterMap fun c => if c.isComment then none else f c.bare := by
  induction xs with
  | nil => rfl
  | cons c cs ih =>
    rw [bareOf, List.filterMap_cons]
    cases hn : c.isComment with
    | true => simpa using ih
    | false => simp [List.filterMap_cons, ih]

theorem lowerStatement_other (hk : n.kind ∉ statementKinds) : lowerStatement n = none := by
  rw [lowerStatement]
  split <;> first | rfl | (next hk' => exact absurd hk' fun he => hk (by rw [he]; decide))

/-- **Statement lists.** -/
theorem statementList_agree {n : Node} (h : Sound n) (hk : n.kind = .statementList) :
    (lowerStatementList n).map Statement.unranged = lowerStatementList n.bare ↔ Harmless n := by
  have ih : ListsBelowAgree n := fun c _ hs hkind => statementList_agree hs hkind
  have hord := h.shape.ordered
  simp only [Ordered, kind_bare, hk] at hord
  have hroles : roles n.kind = statementKinds.map .children := by rw [hk]; rfl
  have hlist (m : Node) : lowerStatementList m = m.namedChildren.filterMap lowerStatement := by
    rw [lowerStatementList, onNamed_eq, List.filterMap_map]
    rfl
  have hstep : ∀ c ∈ n.children,
      ((lowerStatement c).map Statement.unranged =
          (if c.isComment then none else lowerStatement c.bare) ↔ Harmless c) ∧
        (lowerStatement c).isSome =
          (if c.isComment then none else lowerStatement c.bare).isSome := by
    intro c hc
    cases hn : c.isComment with
    | true =>
      have hkind : c.kind ∉ statementKinds := by
        intro hkind
        rcases (show c.kind = .lineComment ∨ c.kind = .blockComment by simpa [isComment] using hn)
          with hc' | hc' <;> (rw [hc'] at hkind; exact absurd hkind (by decide))
      rw [lowerStatement_other hkind]
      simpa using harmless_leaf (h.placed.extra c hc hn).children
    | false =>
      have hs := h.child hc hn
      by_cases hkind : c.kind ∈ statementKinds
      · exact statement_agree hs hkind (ih.below (sizeOf_child hc))
      · rw [lowerStatement_other hkind]
        obtain hq | ⟨r, hr, hsel⟩ := h.shape.kids c.bare (Sound.bare_mem hc hn)
        · rw [lowerStatement_other (by simpa using hkind)]
          simpa using h.quiet hc hq
        · rw [kind_bare, hroles] at hr
          obtain ⟨k, hk', rfl⟩ := List.mem_map.mp hr
          obtain rfl : c.kind = k := by simpa [Role.selects] using hsel
          exact absurd hk' hkind
  have hnamed : ∀ c ∈ n.children, c ∈ n.namedChildren := by
    intro c hc
    refine List.mem_filter.mpr ⟨hc, ?_⟩
    cases hn : c.isComment with
    | true => exact (h.placed.extra c hc hn).named
    | false => simpa using hord c.bare (Sound.bare_mem hc hn)
  rw [hlist, hlist, namedChildren_bare, filterMap_bareOf,
    filterMap_agree n.namedChildren fun c hc => (hstep c (List.mem_of_mem_filter hc)).2, harmless_iff]
  constructor
  · intro hall
    exact ⟨harmlessAt_uncounted (by rw [hk]; decide),
      fun c hc => (hstep c hc).1.mp (hall c (hnamed c hc))⟩
  · rintro ⟨-, hall⟩ c hc
    have hc' := List.mem_of_mem_filter hc
    exact (hstep c hc').1.mpr (hall c hc')
termination_by sizeOf n

theorem Sound.statements (h : Sound n) {f : Field} (hr : .field f [.statementList] ∈ roles n.kind) :
    (Syntax.fieldStatements n f).map Statement.unranged = Syntax.fieldStatements n.bare f ↔
      ∀ c ∈ n.children, (Role.field f [.statementList]).selects c = true → Harmless c :=
  h.fieldStatements hr fun _ _ hs hkind => statementList_agree hs hkind

/-! ## Variable blocks -/

theorem varDeclaration_agree (h : Sound n) (hk : n.kind = .variableDeclaration) :
    (lowerVarDeclaration n).unranged = lowerVarDeclaration n.bare ↔ Harmless n := by
  have hroles : roles n.kind = [typeRole .type, exprRole .initialValue] := by rw [hk]; rfl
  have hord := h.shape.ordered
  simp only [Ordered, kind_bare, hk] at hord
  have hnames : ((n.namedChildren.filter (·.kind == .identifier)).map lowerIdentifier).map
      Identifier.unranged = (n.bare.namedChildren.filter (·.kind == .identifier)).map
        lowerIdentifier := by
    have hfilter (m : Node) (hm : ∀ c ∈ m.children, c.kind = .identifier → c.named = true) :
        m.namedChildren.filter (·.kind == .identifier) = m.childrenOfKind .identifier := by
      rw [namedChildren, childrenOfKind, List.filter_filter]
      refine List.filter_congr fun c hc => ?_
      by_cases hck : c.kind = .identifier
      · simp [hck, hm c hc hck]
      · simp [hck]
    have hm : ∀ c ∈ n.children, c.kind = .identifier → c.named = true := by
      intro c hc hck
      have hn : c.isComment = false := by simp [isComment, hck]
      simpa using hord c.bare (Sound.bare_mem hc hn) (by simpa using hck)
    rw [hfilter n hm, hfilter n.bare hord, childrenOfKind_bare (by decide), List.map_map,
      List.map_map, List.map_inj_left]
    intro c hc
    obtain ⟨hmem, hkind⟩ := List.mem_filter.mp hc
    simp [lowerIdentifier, Identifier.unranged, h.identifier hmem (by simpa using hkind)]
  rw [h.uncounted hroles (by rw [hk]; decide)]
  simp only [lowerVarDeclaration, VarDeclaration.unranged, VarDeclaration.mk.injEq, hnames, true_and,
    List.forall_mem_cons, List.not_mem_nil, false_imp_iff, implies_true, and_true]
  rw [h.fieldDataType (by simp [hroles]), h.optExpression (by simp [hroles])]

omit [F64Ops] in
/-- The words a rule selects. -/
theorem Sound.words (h : Sound n) {k : Kind} (hw : k ∈ wordKinds) :
    (n.bare.childrenOfKind k).map Node.text = (n.childrenOfKind k).map Node.text ∧
      ∀ c ∈ n.children, c.kind = k → Harmless c := by
  have hk : k ≠ .lineComment ∧ k ≠ .blockComment := by
    constructor <;> (rintro rfl; exact absurd hw (by decide))
  have hsound : ∀ c ∈ n.children, c.kind = k → Sound c := by
    intro c hc hck
    exact h.child hc (by simp [isComment, hck, hk])
  refine ⟨?_, fun c hc hck => ((hsound c hc hck).word (by rw [hck]; exact hw)).2⟩
  rw [childrenOfKind_bare hk, List.map_map, List.map_inj_left]
  intro c hc
  obtain ⟨hmem, hkind⟩ := List.mem_filter.mp hc
  have hck : c.kind = k := by simpa using hkind
  exact ((hsound c hmem hck).word_text (by rw [hck]; exact hw)).symm

omit [F64Ops] in
theorem Sound.qualifiers (h : Sound n) : lowerQualifiers n.bare = lowerQualifiers n := by
  have hq (m : Node) : lowerQualifiers m =
      ((m.childrenOfKind .varQualifier).map Node.text).filterMap parseVarQualifier := by
    rw [lowerQualifiers, List.filterMap_map]
    rfl
  rw [hq, hq, (h.words (by decide)).1]

theorem varBlock_agree (h : Sound n) (hk : n.kind = .varBlock) :
    (lowerVarBlock n).unranged = lowerVarBlock n.bare ↔ Harmless n := by
  have hroles : roles n.kind =
      [.child .varKeyword, .children .varQualifier, .children .variableDeclaration] := by rw [hk]; rfl
  have hdecls := h.children_agree (k := .variableDeclaration) (g := lowerVarDeclaration)
    (u := VarDeclaration.unranged) (by simp [hroles]) fun c _ hs hkind => varDeclaration_agree hs hkind
  have hkind (m : Node) : ((m.childrenOfKind .varKeyword).getLast?.map
      fun c => parseVarKind c.text) = (((m.childrenOfKind .varKeyword).map Node.text).getLast?.map
        parseVarKind) := by
    rw [List.getLast?_map, Option.map_map]
    rfl
  rw [h.uncounted hroles (by rw [hk]; decide)]
  simp only [lowerVarBlock, VarBlock.unranged, VarBlock.mk.injEq, h.qualifiers, hkind,
    (h.words (k := .varKeyword) (by decide)).1, true_and, List.forall_mem_cons, List.not_mem_nil,
    false_imp_iff, implies_true, and_true]
  rw [hdecls]
  refine ⟨fun ho => ⟨fun c hc hs => ?_, fun c hc hs => ?_, ho⟩, fun ho => ho.2.2⟩
  · exact (h.words (k := .varKeyword) (by decide)).2 c hc (by simpa [Role.selects] using hs)
  · exact (h.words (k := .varQualifier) (by decide)).2 c hc (by simpa [Role.selects] using hs)

theorem globalVarBlock_agree (h : Sound n) (hk : n.kind = .globalVarDeclaration) :
    (lowerGlobalVarBlock n).unranged = lowerGlobalVarBlock n.bare ↔ Harmless n := by
  have hroles : roles n.kind = [.children .varQualifier, .children .variableDeclaration] := by
    rw [hk]; rfl
  have hdecls := h.children_agree (k := .variableDeclaration) (g := lowerVarDeclaration)
    (u := VarDeclaration.unranged) (by simp [hroles]) fun c _ hs hkind => varDeclaration_agree hs hkind
  rw [h.uncounted hroles (by rw [hk]; decide)]
  simp only [lowerGlobalVarBlock, VarBlock.unranged, VarBlock.mk.injEq, h.qualifiers, true_and,
    List.forall_mem_cons, List.not_mem_nil, false_imp_iff, implies_true, and_true]
  rw [hdecls]
  refine ⟨fun ho => ⟨fun c hc hs => ?_, ho⟩, fun ho => ho.2⟩
  exact (h.words (k := .varQualifier) (by decide)).2 c hc (by simpa [Role.selects] using hs)

theorem Sound.varBlocks (h : Sound n) (hr : .children .varBlock ∈ roles n.kind) :
    (collectVarBlocks n).map VarBlock.unranged = collectVarBlocks n.bare ↔
      ∀ c ∈ n.children, (Role.children .varBlock).selects c = true → Harmless c :=
  h.children_agree hr fun _ _ hs hkind => varBlock_agree hs hkind

/-! ## Type declarations -/

theorem structField_agree (h : Sound n) (hk : n.kind = .structField) :
    (lowerStructField n).unranged = lowerStructField n.bare ↔ Harmless n := by
  have hroles : roles n.kind = [nameRole, typeRole .type, exprRole .default] := by rw [hk]; rfl
  have hr : Role.field .name [.identifier] ∈ roles n.kind := by
    rw [hroles]; exact List.mem_cons_self
  have hname : (fieldIdentifier n .name).name = (fieldIdentifier n.bare .name).name := by
    rw [← h.fieldIdentifier hr (by decide)]
    rfl
  rw [h.uncounted hroles (by rw [hk]; decide)]
  simp only [lowerStructField, StructField.unranged, StructField.mk.injEq, hname, true_and,
    List.forall_mem_cons, List.not_mem_nil, false_imp_iff, implies_true, and_true]
  rw [h.fieldDataType (by simp [hroles]), h.optExpression (by simp [hroles])]
  exact ⟨fun ho => ⟨(h.field_word hr (by decide)).2, ho⟩, fun ho => ho.2⟩

omit [F64Ops] in
theorem literal_kinds : ∀ k ∈ literalKinds, k ∈ expressionKinds ∧ k ∉ countedKinds ∧
    (k ∈ wordKinds ∨ k = .typedLiteral) := by
  decide

/-- A literal has no place for a comment that changes it. -/
theorem literal_agree (h : Sound n) (hk : n.kind ∈ literalKinds) :
    (lowerExpression n).unranged = lowerExpression n.bare ∧ Harmless n := by
  obtain ⟨hexpr, -, hword⟩ := literal_kinds n.kind hk
  have hharmless : Harmless n := by
    obtain hword | htyped := hword
    · exact (h.word hword).2
    · have hty : Role.field .type [.token] ∈ roles n.kind := by rw [htyped]; exact List.mem_cons_self
      have hval : Role.field .value [.integerLiteral, .realLiteral] ∈ roles n.kind := by
        rw [htyped]; exact List.mem_cons_of_mem _ List.mem_cons_self
      refine (h.uncounted (show roles n.kind = [_, _] by rw [htyped]; rfl)
        (by rw [htyped]; decide)).mpr ?_
      simp only [List.forall_mem_cons, List.not_mem_nil, false_imp_iff, implies_true, and_true]
      exact ⟨(h.field_word hty (by decide)).2, (h.field_word hval (by decide)).2⟩
  exact ⟨(expression_agree h hexpr).mpr hharmless, hharmless⟩

theorem enumValue_agree (h : Sound n) (hk : n.kind = .enumValue) :
    lowerEnumValue n = lowerEnumValue n.bare ↔ Harmless n := by
  have hroles : roles n.kind = [nameRole, .field .value literalKinds] := by rw [hk]; rfl
  have hr : Role.field .name [.identifier] ∈ roles n.kind := by
    rw [hroles]; exact List.mem_cons_self
  have hv : Role.field .value literalKinds ∈ roles n.kind := by
    rw [hroles]; exact List.mem_cons_of_mem _ List.mem_cons_self
  have hname : (fieldIdentifier n .name).name = (fieldIdentifier n.bare .name).name := by
    rw [← h.fieldIdentifier hr (by decide)]
    rfl
  have hvalue : ∀ c ∈ n.children, (Role.field .value literalKinds).selects c = true →
      (lowerExpression c).unranged = lowerExpression c.bare ∧ Harmless c := by
    intro c hc hs
    obtain ⟨-, hsound, hkind⟩ := h.selected hv hc hs
    exact literal_agree hsound hkind
  refine iff_of_true ?_ ((h.uncounted hroles (by rw [hk]; decide)).mpr ?_)
  · simp only [lowerEnumValue, hname, EnumValue.mk.injEq, true_and]
    rw [h.childByFieldName_bare hv]
    cases hc : n.childByFieldName .value with
    | none => rfl
    | some c =>
      obtain ⟨heq, -⟩ := hvalue c (List.mem_of_find?_eq_some hc) (List.find?_some hc)
      simp only [Option.map_some, Option.bind_some, ← heq]
      cases lowerExpression c <;> rfl
  · simp only [List.forall_mem_cons, List.not_mem_nil, false_imp_iff, implies_true, and_true]
    exact ⟨(h.field_word hr (by decide)).2, fun c hc hs => (hvalue c hc hs).2⟩

theorem subrange_agree (h : Sound n) (hk : n.kind = .subrangeType) :
    (lowerSubrangeType n).unranged = lowerSubrangeType n.bare ↔ Harmless n := by
  have hroles : roles n.kind = [.field .baseType [.token], exprRole .lower, exprRole .upper] := by
    rw [hk]; rfl
  have hr : Role.field .baseType [.token] ∈ roles n.kind := by rw [hroles]; exact List.mem_cons_self
  obtain ⟨htext, hbase⟩ := h.field_word hr (by decide)
  have hty (m : Node) : (m.childByFieldName .baseType).map (fun c => parseElementaryType c.text) =
      ((m.childByFieldName .baseType).map Node.text).map parseElementaryType := by
    rw [Option.map_map]; rfl
  rw [h.uncounted hroles (by rw [hk]; decide)]
  simp only [lowerSubrangeType, TypeDefKind.unranged, TypeDefKind.subrange.injEq, hty, htext,
    true_and, List.forall_mem_cons, List.not_mem_nil, false_imp_iff, implies_true, and_true]
  rw [h.fieldExpression (by simp [hroles]), h.fieldExpression (by simp [hroles])]
  exact ⟨fun ho => ⟨hbase, ho⟩, fun ho => ho.2⟩

theorem typeDefKind_agree (h : Sound n)
    (hk : n.kind ∈ [Kind.structType, .enumType, .subrangeType] ++ dataTypeKinds) :
    (lowerTypeDefKind n).unranged = lowerTypeDefKind n.bare ↔ Harmless n := by
  rw [lowerTypeDefKind, lowerTypeDefKind]
  simp only [kind_bare]
  rw [List.mem_append] at hk
  simp only [List.mem_cons, List.not_mem_nil, or_false] at hk
  rcases hk with (hk | hk | hk) | hk
  · have hroles : roles n.kind = [.children .structField] := by rw [hk]; rfl
    rw [h.uncounted hroles (by rw [hk]; decide)]
    simp only [hk, TypeDefKind.unranged, TypeDefKind.struct.injEq, List.forall_mem_cons,
      List.not_mem_nil, false_imp_iff, implies_true, and_true]
    exact h.children_agree (by simp [hroles]) fun c _ hs hkind => structField_agree hs hkind
  · have hroles : roles n.kind = [.children .enumValue] := by rw [hk]; rfl
    have hvalues := h.children_agree (k := .enumValue) (g := lowerEnumValue) (u := id)
      (by simp [hroles]) fun c _ hs hkind => enumValue_agree hs hkind
    rw [List.map_id] at hvalues
    rw [h.uncounted hroles (by rw [hk]; decide)]
    simp only [hk, TypeDefKind.unranged, TypeDefKind.enum.injEq, List.forall_mem_cons,
      List.not_mem_nil, false_imp_iff, implies_true, and_true]
    exact hvalues
  · simp only [hk]
    exact subrange_agree h hk
  · rw [← dataType_agree h hk]
    simp only [dataTypeKinds, List.mem_cons, List.not_mem_nil, or_false] at hk
    rcases hk with hk | hk | hk | hk | hk <;>
      simp only [hk, TypeDefKind.unranged, TypeDefKind.alias.injEq]

theorem typeDefinition_agree (h : Sound n) (hk : n.kind = .typeDefinition) :
    (lowerTypeDefinition n).unranged = lowerTypeDefinition n.bare ↔ Harmless n := by
  have hroles : roles n.kind =
      [nameRole, .field .type ([.structType, .enumType, .subrangeType] ++ dataTypeKinds)] := by
    rw [hk]; rfl
  have hr : Role.field .name [.identifier] ∈ roles n.kind := by
    rw [hroles]; exact List.mem_cons_self
  have hty := h.fieldD_agree (f := .type) (g := lowerTypeDefKind) (u := TypeDefKind.unranged)
    (d := .alias (.elementary .int)) (by rw [hroles]; exact List.mem_cons_of_mem _ List.mem_cons_self)
    (fun c _ hs hkind => typeDefKind_agree hs hkind) rfl
  rw [h.uncounted hroles (by rw [hk]; decide)]
  simp only [lowerTypeDefinition, TypeDefinition.unranged, TypeDefinition.mk.injEq,
    h.fieldIdentifier hr (by decide), true_and, List.forall_mem_cons, List.not_mem_nil,
    false_imp_iff, implies_true, and_true]
  rw [← hty]
  exact ⟨fun ho => ⟨(h.field_word hr (by decide)).2, ho⟩, fun ho => ho.2⟩

/-! ## Program organisation units -/

omit [F64Ops] in
theorem Sound.name (h : Sound n) (hr : nameRole ∈ roles n.kind) :
    (Syntax.fieldIdentifier n .name).unranged = Syntax.fieldIdentifier n.bare .name ∧
      ∀ c ∈ n.children, nameRole.selects c = true → Harmless c :=
  ⟨h.fieldIdentifier hr (by decide), (h.field_word hr (by decide)).2⟩

theorem program_agree (h : Sound n)
    (hk : n.kind = .programDeclaration ∨ n.kind = .functionBlockDeclaration) :
    ((fieldIdentifier n .name).unranged = fieldIdentifier n.bare .name ∧
      (collectVarBlocks n).map VarBlock.unranged = collectVarBlocks n.bare ∧
      (fieldStatements n .body).map Statement.unranged = fieldStatements n.bare .body) ↔
        Harmless n := by
  have hroles : roles n.kind = [nameRole, .children .varBlock, bodyRole] := by
    rcases hk with hk | hk <;> (rw [hk]; rfl)
  obtain ⟨hname, hnamec⟩ := h.name (by simp [hroles])
  rw [h.uncounted hroles (by rcases hk with hk | hk <;> (rw [hk]; decide)),
    h.varBlocks (by simp [hroles]), h.statements (by simp [hroles, bodyRole])]
  simp only [hname, true_and, List.forall_mem_cons, List.not_mem_nil, false_imp_iff, implies_true,
    and_true]
  exact ⟨fun ho => ⟨hnamec, ho⟩, fun ho => ho.2⟩

theorem function_agree (h : Sound n) (hk : n.kind = .functionDeclaration) :
    (TopLevelItem.function (lowerFunction n)).unranged = .function (lowerFunction n.bare) ↔
      Harmless n := by
  have hroles : roles n.kind = [nameRole, typeRole .returnType, .children .varBlock, bodyRole] := by
    rw [hk]; rfl
  obtain ⟨hname, hnamec⟩ := h.name (by simp [hroles])
  rw [h.uncounted hroles (by rw [hk]; decide)]
  simp only [lowerFunction, TopLevelItem.unranged, TopLevelItem.function.injEq, FunctionDecl.mk.injEq,
    hname, true_and, List.forall_mem_cons, List.not_mem_nil, false_imp_iff, implies_true, and_true]
  rw [h.fieldDataType (by simp [hroles]), h.varBlocks (by simp [hroles]),
    h.statements (by simp [hroles, bodyRole])]
  exact ⟨fun ho => ⟨hnamec, ho⟩, fun ho => ho.2⟩

omit [F64Ops] in
/-- Whether a field is there does not depend on the comments. -/
theorem Sound.hasField (h : Sound n) (f : Field) :
    (n.childByFieldName f).isSome = (n.bare.childByFieldName f).isSome := by
  rw [Bool.eq_iff_iff, childByFieldName, childByFieldName, List.find?_isSome, List.find?_isSome]
  constructor
  · rintro ⟨c, hc, hf⟩
    have hn : c.isComment = false := by
      cases hn : c.isComment with
      | false => rfl
      | true => simp [(h.placed.extra c hc hn).field] at hf
    exact ⟨c.bare, Sound.bare_mem hc hn, by simpa using hf⟩
  · rintro ⟨c, hc, hf⟩
    obtain ⟨d, hd, -, rfl⟩ := Sound.of_bare_mem hc
    exact ⟨d, hd, by simpa using hf⟩

omit [F64Ops] in
theorem Sound.accessSpecifier (h : Sound n) (hr : .field .access [.accessSpecifier] ∈ roles n.kind) :
    fieldAccess n = fieldAccess n.bare ∧
      ∀ c ∈ n.children, (Role.field .access [.accessSpecifier]).selects c = true → Harmless c := by
  obtain ⟨htext, hc⟩ := h.field_word hr (by decide)
  have hacc (m : Node) : (m.childByFieldName .access).map (fun c => parseAccessSpecifier c.text) =
      ((m.childByFieldName .access).map Node.text).map parseAccessSpecifier := by
    rw [Option.map_map]; rfl
  exact ⟨by rw [fieldAccess, fieldAccess, hacc, hacc, htext], hc⟩

theorem method_agree (h : Sound n) (hk : n.kind = .methodDeclaration) :
    (lowerMethod n).unranged = lowerMethod n.bare ↔ Harmless n := by
  have hroles : roles n.kind = [.field .access [.accessSpecifier], nameRole, typeRole .returnType,
      .children .varBlock, bodyRole] := by rw [hk]; rfl
  obtain ⟨hname, hnamec⟩ := h.name (by simp [hroles])
  obtain ⟨hacc, haccc⟩ := h.accessSpecifier (by simp [hroles])
  rw [h.uncounted hroles (by rw [hk]; decide)]
  simp only [lowerMethod, MethodDecl.unranged, MethodDecl.mk.injEq, hname, hacc, h.hasField, true_and,
    List.forall_mem_cons, List.not_mem_nil, false_imp_iff, implies_true, and_true]
  rw [h.optDataType (by simp [hroles]), h.varBlocks (by simp [hroles]),
    h.statements (by simp [hroles, bodyRole])]
  exact ⟨fun ho => ⟨haccc, hnamec, ho⟩, fun ho => ho.2.2⟩

theorem accessor_agree (h : Sound n) (hk : n.kind = .propertyGet ∨ n.kind = .propertySet) :
    (lowerPropertyAccessor n).unranged = lowerPropertyAccessor n.bare ↔ Harmless n := by
  have hroles : roles n.kind = [.children .varBlock, bodyRole] := by
    rcases hk with hk | hk <;> (rw [hk]; rfl)
  rw [h.uncounted hroles (by rcases hk with hk | hk <;> (rw [hk]; decide))]
  simp only [lowerPropertyAccessor, PropertyAccessor.unranged, PropertyAccessor.mk.injEq,
    List.forall_mem_cons, List.not_mem_nil, false_imp_iff, implies_true, and_true]
  rw [h.varBlocks (by simp [hroles]), h.statements (by simp [hroles, bodyRole])]
  rfl

theorem property_agree (h : Sound n) (hk : n.kind = .propertyDeclaration) :
    (lowerProperty n).unranged = lowerProperty n.bare ↔ Harmless n := by
  have hroles : roles n.kind = [.field .access [.accessSpecifier], nameRole, typeRole .type,
      .field .get [.propertyGet], .field .set [.propertySet]] := by rw [hk]; rfl
  obtain ⟨hname, hnamec⟩ := h.name (by simp [hroles])
  obtain ⟨hacc, haccc⟩ := h.accessSpecifier (by simp [hroles])
  have hget : Role.field .get [.propertyGet] ∈ roles n.kind := by simp [hroles]
  have hset : Role.field .set [.propertySet] ∈ roles n.kind := by simp [hroles]
  have hgets := h.field_agree hget (g := lowerPropertyAccessor) (u := PropertyAccessor.unranged)
    fun c _ hs hkind => accessor_agree hs (.inl (by simpa using hkind))
  have hsets := h.field_agree hset (g := lowerPropertyAccessor) (u := PropertyAccessor.unranged)
    fun c _ hs hkind => accessor_agree hs (.inr (by simpa using hkind))
  rw [h.uncounted hroles (by rw [hk]; decide)]
  simp only [lowerProperty, PropertyDecl.unranged, PropertyDecl.mk.injEq, hname, hacc, true_and,
    List.forall_mem_cons, List.not_mem_nil, false_imp_iff, implies_true, and_true]
  rw [h.fieldDataType (by simp [hroles]), hgets, hsets]
  exact ⟨fun ho => ⟨haccc, hnamec, ho⟩, fun ho => ho.2.2⟩

omit [F64Ops] in
theorem Sound.fieldNames (h : Sound n) (f : Field) : fieldNames n f = fieldNames n.bare f := by
  have hb : (n.bare.childrenByFieldName f).filter (·.kind == .identifier) =
      ((n.childrenByFieldName f).filter (·.kind == .identifier)).map bare := by
    rw [childrenByFieldName, childrenByFieldName, children_bare, List.filter_map, List.filter_map,
      List.filter_filter, List.filter_filter, List.filter_filter]
    congr 1
    refine List.filter_congr fun c _ => ?_
    by_cases hck : c.kind = .identifier
    · simp [isComment, hck]
    · simp [hck]
  rw [Syntax.fieldNames, Syntax.fieldNames, hb, List.map_map, List.map_inj_left]
  intro c hc
  obtain ⟨hc, hkind⟩ := List.mem_filter.mp hc
  exact h.identifier (List.mem_of_mem_filter hc) (by simpa using hkind)

theorem class_agree (h : Sound n) (hk : n.kind = .classDeclaration) :
    (lowerClass n).unranged = lowerClass n.bare ↔ Harmless n := by
  have hroles : roles n.kind = [nameRole, .field .base [.identifier], .children .varBlock,
      .children .methodDeclaration, .children .propertyDeclaration] := by rw [hk]; rfl
  obtain ⟨hname, hnamec⟩ := h.name (by simp [hroles])
  have hr : Role.field .base [.identifier] ∈ roles n.kind := by simp [hroles]
  obtain ⟨hbase, hbasec⟩ := h.field_word hr (by decide)
  have hmethods := h.children_agree (k := .methodDeclaration) (g := lowerMethod)
    (u := MethodDecl.unranged) (by simp [hroles]) fun c _ hs hkind => method_agree hs hkind
  have hproperties := h.children_agree (k := .propertyDeclaration) (g := lowerProperty)
    (u := PropertyDecl.unranged) (by simp [hroles]) fun c _ hs hkind => property_agree hs hkind
  rw [h.uncounted hroles (by rw [hk]; decide)]
  simp only [lowerClass, ClassDecl.unranged, ClassDecl.mk.injEq, hname, hbase, h.fieldNames,
    h.hasField, true_and, List.forall_mem_cons, List.not_mem_nil, false_imp_iff, implies_true,
    and_true]
  rw [h.varBlocks (by simp [hroles]), hmethods, hproperties]
  exact ⟨fun ho => ⟨hnamec, hbasec, ho⟩, fun ho => ho.2.2⟩

theorem prototype_agree (h : Sound n) (hk : n.kind = .methodPrototype) :
    (lowerMethodPrototype n).unranged = lowerMethodPrototype n.bare ↔ Harmless n := by
  have hroles : roles n.kind = [nameRole, typeRole .returnType, .children .varBlock] := by
    rw [hk]; rfl
  obtain ⟨hname, hnamec⟩ := h.name (by simp [hroles])
  have hname' : (fieldIdentifier n .name).name = (fieldIdentifier n.bare .name).name := by
    rw [← hname]
    rfl
  rw [h.uncounted hroles (by rw [hk]; decide)]
  simp only [lowerMethodPrototype, MethodPrototype.unranged, MethodPrototype.mk.injEq, hname',
    true_and, List.forall_mem_cons, List.not_mem_nil, false_imp_iff, implies_true, and_true]
  rw [h.optDataType (by simp [hroles]), h.varBlocks (by simp [hroles])]
  exact ⟨fun ho => ⟨hnamec, ho⟩, fun ho => ho.2⟩

theorem interface_agree (h : Sound n) (hk : n.kind = .interfaceDeclaration) :
    (TopLevelItem.interface (lowerInterface n)).unranged = .interface (lowerInterface n.bare) ↔
      Harmless n := by
  have hroles : roles n.kind = [nameRole, .children .methodPrototype] := by rw [hk]; rfl
  obtain ⟨hname, hnamec⟩ := h.name (by simp [hroles])
  have hmethods := h.children_agree (k := .methodPrototype) (g := lowerMethodPrototype)
    (u := MethodPrototype.unranged) (by simp [hroles]) fun c _ hs hkind => prototype_agree hs hkind
  rw [h.uncounted hroles (by rw [hk]; decide)]
  simp only [lowerInterface, TopLevelItem.unranged, TopLevelItem.interface.injEq,
    InterfaceDecl.mk.injEq, hname, h.fieldNames, true_and, List.forall_mem_cons, List.not_mem_nil,
    false_imp_iff, implies_true, and_true]
  rw [hmethods]
  exact ⟨fun ho => ⟨hnamec, ho⟩, fun ho => ho.2⟩

/-! ## Source files -/

/-- `_declaration`: the items of a source file. -/
def itemKinds : List Kind :=
  [.programDeclaration, .functionDeclaration, .functionBlockDeclaration, .classDeclaration,
    .interfaceDeclaration, .typeDeclaration, .globalVarDeclaration]

theorem item_agree (h : Sound n) (hk : n.kind ∈ itemKinds) :
    ((lowerItem n).map TopLevelItem.unranged = lowerItem n.bare ↔ Harmless n) ∧
      (lowerItem n).isSome = (lowerItem n.bare).isSome := by
  rw [lowerItem, lowerItem]
  simp only [kind_bare]
  simp only [itemKinds, List.mem_cons, List.not_mem_nil, or_false] at hk
  rcases hk with hk | hk | hk | hk | hk | hk | hk
  · rw [← program_agree h (.inl hk)]
    simp only [hk, Option.map_some, Option.some.injEq, TopLevelItem.unranged,
      TopLevelItem.program.injEq, lowerProgram, ProgramDecl.mk.injEq, Option.isSome_some, and_true]
  · simp only [hk, Option.map_some, Option.some.injEq, Option.isSome_some, and_true]
    exact function_agree h hk
  · rw [← program_agree h (.inr hk)]
    simp only [hk, Option.map_some, Option.some.injEq, TopLevelItem.unranged,
      TopLevelItem.functionBlock.injEq, lowerFunctionBlock, FunctionBlockDecl.mk.injEq,
      Option.isSome_some, and_true]
  · rw [← class_agree h hk]
    simp only [hk, Option.map_some, Option.some.injEq, TopLevelItem.unranged,
      TopLevelItem.classDecl.injEq, Option.isSome_some, and_true]
  · simp only [hk, Option.map_some, Option.some.injEq, Option.isSome_some, and_true]
    exact interface_agree h hk
  · have hroles : roles n.kind = [.children .typeDefinition] := by rw [hk]; rfl
    rw [h.uncounted hroles (by rw [hk]; decide)]
    simp only [hk, Option.map_some, Option.some.injEq, TopLevelItem.unranged,
      TopLevelItem.typeDeclaration.injEq, Option.isSome_some, and_true, List.forall_mem_cons,
      List.not_mem_nil, false_imp_iff, implies_true]
    exact h.children_agree (by simp [hroles]) fun c _ hs hkind => typeDefinition_agree hs hkind
  · rw [← globalVarBlock_agree h hk]
    simp only [hk, Option.map_some, Option.some.injEq, TopLevelItem.unranged,
      TopLevelItem.globalVarDeclaration.injEq, Option.isSome_some, and_true]

theorem lowerItem_other (hk : n.kind ∉ itemKinds) : lowerItem n = none := by
  rw [lowerItem]
  split <;> first | rfl | (next hk' => exact absurd hk' fun he => hk (by rw [he]; decide))

theorem sourceFile_agree (h : Sound n) (hk : n.kind = .sourceFile) :
    (lowerSourceFile n).unranged = lowerSourceFile n.bare ↔ Harmless n := by
  have hroles : roles n.kind = itemKinds.map .children := by rw [hk]; rfl
  have hstep : ∀ c ∈ n.children,
      ((lowerItem c).map TopLevelItem.unranged =
          (if c.isComment then none else lowerItem c.bare) ↔ Harmless c) ∧
        (lowerItem c).isSome = (if c.isComment then none else lowerItem c.bare).isSome := by
    intro c hc
    cases hn : c.isComment with
    | true =>
      have hkind : c.kind ∉ itemKinds := by
        intro hkind
        rcases (show c.kind = .lineComment ∨ c.kind = .blockComment by simpa [isComment] using hn)
          with hc' | hc' <;> (rw [hc'] at hkind; exact absurd hkind (by decide))
      rw [lowerItem_other hkind]
      simpa using harmless_leaf (h.placed.extra c hc hn).children
    | false =>
      by_cases hkind : c.kind ∈ itemKinds
      · exact item_agree (h.child hc hn) hkind
      · rw [lowerItem_other hkind]
        obtain hq | ⟨r, hr, hsel⟩ := h.shape.kids c.bare (Sound.bare_mem hc hn)
        · rw [lowerItem_other (by simpa using hkind)]
          simpa using h.quiet hc hq
        · rw [kind_bare, hroles] at hr
          obtain ⟨k, hk', rfl⟩ := List.mem_map.mp hr
          obtain rfl : c.kind = k := by simpa [Role.selects] using hsel
          exact absurd hk' hkind
  simp only [lowerSourceFile, SourceFile.unranged, SourceFile.mk.injEq]
  rw [children_bare, ← bareOf_eq, filterMap_bareOf,
    filterMap_agree n.children fun c hc => (hstep c hc).2, harmless_iff]
  constructor
  · intro hall
    exact ⟨harmlessAt_uncounted (by rw [hk]; decide), fun c hc => (hstep c hc).1.mp (hall c hc)⟩
  · rintro ⟨-, hall⟩ c hc
    exact (hstep c hc).1.mpr (hall c hc)

omit [F64Ops] in
theorem ErrorFree.sound {t : Node} (ht : ErrorFree t) : Sound t := ⟨ht.commented, ht.parsed⟩

omit [F64Ops] in
theorem ErrorFree.sound_inserted {t t' : Node} (ht : ErrorFree t) (h : Inserted t t') : Sound t' :=
  ⟨h.commented ht.commented, by rw [← h.sameBare]; exact ht.parsed⟩

omit [F64Ops] in
theorem ErrorFree.root_inserted {t t' : Node} (ht : ErrorFree t) (h : Inserted t t') :
    t'.kind = .sourceFile := by
  rw [← kind_bare, ← h.sameBare, kind_bare, ht.root]

/-- **Comments are insignificant where they are harmless**: with comments
inserted into a tree whose own comments are harmless, lowering produces the
same AST up to text ranges just when the inserted comments are harmless too. -/
theorem comments_insignificant_iff {t t' : Node} (ht : ErrorFree t) (h : Inserted t t')
    (own : Harmless t) :
    (lowerSourceFile t').unranged = (lowerSourceFile t).unranged ↔ Harmless t' := by
  rw [← sourceFile_agree (ht.sound_inserted h) (ht.root_inserted h),
    (sourceFile_agree ht.sound ht.root).mpr own, h.sameBare]

/-! ## A comment inside a parenthesis -/

omit [F64Ops] in
theorem parsed_iff : Parsed n ↔ Shape n ∧ ∀ c ∈ n.children, Parsed c := by
  simp only [Parsed, within_iff (n := n)]
  constructor
  · intro h
    exact ⟨h n (.inl rfl), fun c hc m hm => h m (.inr ⟨c, hc, hm⟩)⟩
  · rintro ⟨h, hs⟩ m (rfl | ⟨c, hc, hm⟩)
    · exact h
    · exact hs c hc m hm

/-- A node without children. -/
def leaf (k : Kind) (named : Bool) (f : Option Field) (w : String) : Node :=
  .mk k named f noRange w []

def keyword (w : String) : Node := leaf .token false none w

/-- `(* c *)` -/
def someComment : Node := leaf .blockComment true none "(* c *)"

/-- `(1)` with comments on both sides of the operand. -/
def parenthesis (before after : List Node) : Node :=
  .mk .parenthesizedExpression true (some .initialValue) noRange ""
    (keyword "(" :: before ++ leaf .integerLiteral true none "1" :: after ++ [keyword ")"])

/-- `VAR_GLOBAL x : INT := (1); END_VAR`, its parenthesis with comments. -/
def initialised (before after : List Node) : Node :=
  .mk .sourceFile true none noRange "" [
    .mk .globalVarDeclaration true none noRange "" [
      keyword "VAR_GLOBAL",
      .mk .variableDeclaration true none noRange "" [
        leaf .identifier true (some .name) "x", keyword ":", leaf .token false (some .type) "INT",
        keyword ":=",
        parenthesis before after, keyword ";"],
      keyword "END_VAR"]]

omit [F64Ops] in
theorem leaf_parsed {k : Kind} {b : Bool} {f : Option Field} {w : String}
    (hk : k = .token ∨ k = .identifier ∨ k = .integerLiteral) (hw : w ≠ "")
    (hname : '[' ∉ w.toList ∧ '^' ∉ w.toList)
    (hfirst : ∀ c, w.toList.head? = some c → c ∉ ['[', ']', ',', '^'] ∨ k = .token) :
    Parsed (leaf k b f w) := by
  refine parsed_iff.mpr ⟨⟨?_, ?_, ?_, ?_, ?_, ?_, ⟨?_, ?_, ?_, ?_⟩⟩, by simp [leaf, children]⟩
  all_goals
    rcases hk with rfl | rfl | rfl <;>
      simp_all [leaf, children, kind, roles, Ordered, word, chars, charsOf, expressionKinds,
        literalKinds, binaryKinds]

omit [F64Ops] in
theorem commented_plain (h : ∀ c ∈ n.children, c.isComment = false ∧ Commented c) : Commented n := by
  refine commented_iff.mpr ⟨⟨fun c hc hcom => ?_, fun _ c he => ?_⟩, fun c hc => (h c hc).2⟩
  · rw [(h c hc).1] at hcom
    cases hcom
  · rcases he with he | he
    · exact (h c (List.mem_of_mem_head? he)).1
    · exact (h c (List.mem_of_getLast? he)).1

omit [F64Ops] in
theorem leaf_commented {k : Kind} {b : Bool} {f : Option Field} {w : String} :
    Commented (leaf k b f w) :=
  commented_plain (by simp [leaf, children])

omit [F64Ops] in
theorem keyword_parsed {w : String} (hw : w ≠ "") (h : '[' ∉ w.toList ∧ '^' ∉ w.toList)
    (f : Option Field) : Parsed (leaf .token false f w) :=
  leaf_parsed (.inl rfl) hw h fun _ _ => .inr rfl

omit [F64Ops] in
theorem operand_parsed : Parsed (parenthesis [] []) := by
  change Parsed (.mk .parenthesizedExpression true (some .initialValue) noRange ""
    [keyword "(", leaf .integerLiteral true none "1", keyword ")"])
  refine parsed_iff.mpr ⟨⟨?_, ?_, ?_, ?_, ?_, ?_, ⟨?_, ?_, ?_, ?_⟩⟩, ?_⟩
  · simp [children, keyword, leaf]
  · intro r hr c _ hs
    obtain ⟨k, hk, rfl⟩ := List.mem_map.mp (show r ∈ expressionKinds.map .children from hr)
    simpa [Role.kinds, Role.selects] using hs
  · intro r hr hsingle
    obtain ⟨k, hk, rfl⟩ := List.mem_map.mp (show r ∈ expressionKinds.map .children from hr)
    cases hsingle
  · intro hk
    exact absurd hk (by decide)
  · simp [children, keyword, leaf, kind]
  · exact ⟨_, _, _, rfl, ⟨rfl, rfl, rfl, rfl⟩, ⟨rfl, rfl, rfl, rfl⟩, rfl, by decide⟩
  · simp [children]
  · simp [word]
  · simp [kind]
  · intro _ c hc
    obtain rfl : '(' = c := by simpa [chars, charsOf, keyword, leaf] using hc
    decide
  · simp only [children, List.forall_mem_cons, List.not_mem_nil, false_imp_iff, implies_true,
      and_true]
    exact ⟨keyword_parsed (by decide) (by decide) none,
      leaf_parsed (.inr (.inr rfl)) (by decide) (by decide) (by simp),
      keyword_parsed (by decide) (by decide) none⟩

omit [F64Ops] in
theorem declaration_parsed {e : Node} (he : Parsed e) (hk : e.kind = .parenthesizedExpression)
    (hf : e.field = some .initialValue) :
    Parsed (.mk .variableDeclaration true none noRange "" [leaf .identifier true (some .name) "x",
      keyword ":", leaf .token false (some .type) "INT", keyword ":=", e, keyword ";"]) := by
  obtain ⟨k, nm, f, r, w, cs⟩ := e
  obtain rfl : k = .parenthesizedExpression := hk
  obtain rfl : f = some .initialValue := hf
  refine parsed_iff.mpr ⟨⟨?_, ?_, ?_, ?_, ?_, ?_, ⟨?_, ?_, ?_, ?_⟩⟩, ?_⟩
  · simp [children, keyword, leaf, kind, roles, typeRole, exprRole, Role.selects, field]
  · simp [children, keyword, leaf, kind, roles, typeRole, exprRole, Role.selects, Role.kinds,
      field, dataTypeKinds, expressionKinds]
  · simp [children, keyword, leaf, kind, roles, typeRole, exprRole, Role.selects, field,
      List.filter_cons]
  · intro hk
    exact absurd (show Kind.variableDeclaration ∈ wordKinds from hk) (by decide)
  · simp [children, keyword, leaf, kind]
  · simp [Ordered, children, keyword, leaf, kind, named]
  · simp [children]
  · simp [word]
  · simp [kind]
  · intro hk
    exact absurd (show Kind.variableDeclaration ∈ expressionKinds from hk) (by decide)
  · simp only [children, List.forall_mem_cons, List.not_mem_nil, false_imp_iff, implies_true,
      and_true]
    exact ⟨leaf_parsed (.inr (.inl rfl)) (by decide) (by decide) (by simp),
      keyword_parsed (by decide) (by decide) none, keyword_parsed (by decide) (by decide) _,
      keyword_parsed (by decide) (by decide) none, he, keyword_parsed (by decide) (by decide) none⟩

omit [F64Ops] in
theorem file_parsed {d : Node} (hd : Parsed d) (hk : d.kind = .variableDeclaration) :
    Parsed (.mk .sourceFile true none noRange "" [.mk .globalVarDeclaration true none noRange ""
      [keyword "VAR_GLOBAL", d, keyword "END_VAR"]]) := by
  obtain ⟨k, nm, f, r, w, cs⟩ := d
  obtain rfl : k = .variableDeclaration := hk
  refine parsed_iff.mpr ⟨⟨?_, ?_, ?_, ?_, ?_, ?_, ⟨?_, ?_, ?_, ?_⟩⟩, ?_⟩
  · simp [children, kind, roles, Role.selects]
  · simp [children, kind, roles, Role.selects, Role.kinds]
  · simp [kind, roles, Role.single]
  · intro hk
    exact absurd (show Kind.sourceFile ∈ wordKinds from hk) (by decide)
  · simp [children, kind]
  · simp [Ordered, kind]
  · simp [children]
  · simp [word]
  · simp [kind]
  · intro hk
    exact absurd (show Kind.sourceFile ∈ expressionKinds from hk) (by decide)
  · simp only [children, List.forall_mem_cons, List.not_mem_nil, false_imp_iff, implies_true,
      and_true]
    refine parsed_iff.mpr ⟨⟨?_, ?_, ?_, ?_, ?_, ?_, ⟨?_, ?_, ?_, ?_⟩⟩, ?_⟩
    · simp [children, kind, roles, Role.selects, keyword, leaf]
    · simp [children, kind, roles, Role.selects, Role.kinds, keyword, leaf]
    · simp [kind, roles, Role.single]
    · intro hk
      exact absurd (show Kind.globalVarDeclaration ∈ wordKinds from hk) (by decide)
    · simp [children, kind, keyword, leaf]
    · simp [Ordered, kind]
    · simp [children]
    · simp [word]
    · simp [kind]
    · intro hk
      exact absurd (show Kind.globalVarDeclaration ∈ expressionKinds from hk) (by decide)
    · simp only [children, List.forall_mem_cons, List.not_mem_nil, false_imp_iff, implies_true,
        and_true]
      exact ⟨keyword_parsed (by decide) (by decide) none, hd,
        keyword_parsed (by decide) (by decide) none⟩

omit [F64Ops] in
theorem initialised_errorFree : ErrorFree (initialised [] []) := by
  refine ⟨rfl, ?_, ?_⟩
  · refine commented_plain ?_
    simp only [initialised, children, List.forall_mem_cons, List.not_mem_nil, false_imp_iff,
      implies_true, and_true]
    refine ⟨rfl, commented_plain ?_⟩
    simp only [children, List.forall_mem_cons, List.not_mem_nil, false_imp_iff, implies_true,
      and_true]
    refine ⟨⟨rfl, leaf_commented⟩, ⟨rfl, commented_plain ?_⟩, rfl, leaf_commented⟩
    simp only [children, List.forall_mem_cons, List.not_mem_nil, false_imp_iff, implies_true,
      and_true]
    refine ⟨⟨rfl, leaf_commented⟩, ⟨rfl, leaf_commented⟩, ⟨rfl, leaf_commented⟩,
      ⟨rfl, leaf_commented⟩, ⟨rfl, commented_plain ?_⟩, rfl, leaf_commented⟩
    simp only [parenthesis, children, List.cons_append, List.nil_append, List.forall_mem_cons,
      List.not_mem_nil, false_imp_iff, implies_true, and_true]
    exact ⟨⟨rfl, leaf_commented⟩, ⟨rfl, leaf_commented⟩, rfl, leaf_commented⟩
  · exact file_parsed (declaration_parsed operand_parsed rfl rfl) rfl

omit [F64Ops] in
theorem someComment_extra : Extra someComment :=
  ⟨rfl, rfl, rfl, rfl, '(', '*', " c *)".toList, by decide, .inr rfl⟩

omit [F64Ops] in
theorem leaf_inserted (k : Kind) (b : Bool) (f : Option Field) (w : String) :
    Inserted (leaf k b f w) (leaf k b f w) :=
  .node .nil

omit [F64Ops] in
theorem initialised_inserted {before after : List Node} (hb : ∀ c ∈ before, Extra c)
    (ha : ∀ c ∈ after, Extra c) : Inserted (initialised [] []) (initialised before after) := by
  have hp : Inserted (parenthesis [] []) (parenthesis before after) := by
    have hafter : InsertedAfter [leaf .integerLiteral true none "1", keyword ")"]
        (before ++ leaf .integerLiteral true none "1" :: (after ++ [keyword ")"])) :=
      .cons hb (leaf_inserted _ _ _ _) (.cons ha (leaf_inserted _ _ _ _) .nil)
    exact .node (by simpa [keyword] using InsertedAmong.cons (leaf_inserted _ _ _ _) hafter)
  have hnone : ∀ c ∈ ([] : List Node), Extra c := by simp
  refine .node (.cons (.node (.cons (leaf_inserted _ _ _ _) ?_)) .nil)
  refine .cons hnone (.node (.cons (leaf_inserted _ _ _ _) ?_))
    (.cons hnone (leaf_inserted _ _ _ _) .nil)
  exact .cons hnone (leaf_inserted _ _ _ _) (.cons hnone (leaf_inserted _ _ _ _)
    (.cons hnone (leaf_inserted _ _ _ _) (.cons hnone hp
      (.cons hnone (leaf_inserted _ _ _ _) .nil))))

omit [F64Ops] in
/-- The parenthesis is the only node of `initialised` in which comments count. -/
theorem initialised_harmless {before after : List Node}
    (h : ∀ c ∈ before ++ after, c.children = []) (hat : HarmlessAt (parenthesis before after)) :
    Harmless (initialised before after) := by
  have hleaf : ∀ k b f w, Harmless (leaf k b f w) := fun k b f w => harmless_leaf rfl
  have hp : Harmless (parenthesis before after) := by
    refine harmless_iff.mpr ⟨hat, fun c hc => ?_⟩
    simp only [parenthesis, children, List.cons_append, List.append_assoc, List.mem_cons,
      List.mem_append, List.not_mem_nil, or_false] at hc
    rcases hc with rfl | hc | rfl | hc | rfl
    · exact hleaf _ _ _ _
    · exact harmless_leaf (h c (List.mem_append_left _ hc))
    · exact hleaf _ _ _ _
    · exact harmless_leaf (h c (List.mem_append_right _ hc))
    · exact hleaf _ _ _ _
  have hfile : Kind.sourceFile ∉ countedKinds := by decide
  have hglobals : Kind.globalVarDeclaration ∉ countedKinds := by decide
  have hdeclaration : Kind.variableDeclaration ∉ countedKinds := by decide
  refine harmless_iff.mpr ⟨harmlessAt_uncounted hfile, ?_⟩
  simp only [initialised, children, List.forall_mem_singleton]
  refine harmless_iff.mpr ⟨harmlessAt_uncounted hglobals, ?_⟩
  simp only [children, List.forall_mem_cons, List.not_mem_nil, false_imp_iff, implies_true,
    and_true]
  refine ⟨hleaf _ _ _ _, harmless_iff.mpr ⟨harmlessAt_uncounted hdeclaration, ?_⟩, hleaf _ _ _ _⟩
  simp only [children, List.forall_mem_cons, List.not_mem_nil, false_imp_iff, implies_true,
    and_true]
  exact ⟨hleaf _ _ _ _, hleaf _ _ _ _, hleaf _ _ _ _, hleaf _ _ _ _, hp, hleaf _ _ _ _⟩

omit [F64Ops] in
theorem operand_harmless {after : List Node} : HarmlessAt (parenthesis [] after) := by
  rintro ⟨c, hc, hcom⟩
  obtain rfl : leaf .integerLiteral true none "1" = c := by
    simpa [parenthesis, namedChildren, children, keyword, leaf, named] using hc
  cases hcom

omit [F64Ops] in
/-- A comment behind the operand is skipped. -/
theorem comments_behind_operand :
    (@lowerSourceFile default (initialised [] [someComment])).unranged =
      (@lowerSourceFile default (initialised [] [])).unranged := by
  refine (@comments_insignificant_iff default _ _ initialised_errorFree
    (initialised_inserted (by simp) (by simpa using someComment_extra))
    (initialised_harmless (by simp) operand_harmless)).mpr ?_
  exact initialised_harmless (by simp [someComment, leaf, children]) operand_harmless

omit [F64Ops] in
/-- A comment before the operand is taken for the operand, and the value
becomes 0. -/
theorem comment_taken_for_operand :
    ∃ t t' : Node, ErrorFree t ∧ t.bare = t ∧ Inserted t t' ∧
      (@lowerSourceFile default t').unranged ≠ (@lowerSourceFile default t).unranged := by
  have hi : Inserted (initialised [] []) (initialised [someComment] []) :=
    initialised_inserted (by simpa using someComment_extra) (by simp)
  have hbare : (initialised [] []).bare = initialised [] [] := rfl
  have hplain : (@lowerSourceFile default (initialised [] [])).unranged =
      @lowerSourceFile default (initialised [] []).bare :=
    (@sourceFile_agree default _ initialised_errorFree.sound rfl).mpr
      (initialised_harmless (by simp) operand_harmless)
  refine ⟨_, _, initialised_errorFree, hbare, hi, fun he => ?_⟩
  rw [hplain, hi.sameBare] at he
  have hharmless := (@sourceFile_agree default _ (initialised_errorFree.sound_inserted hi) rfl).mp he
  have hwithin : Within (parenthesis [someComment] []) (initialised [someComment] []) :=
    .child (.head _) (.child (.tail _ (.head _))
      (.child (.tail _ (.tail _ (.tail _ (.tail _ (.head _))))) .refl))
  obtain ⟨e, hmem, hzero⟩ := hharmless _ hwithin ⟨someComment, rfl, rfl⟩
  simp only [parenthesis, children, List.cons_append, List.nil_append, List.mem_cons,
    List.not_mem_nil, or_false] at hmem
  rcases hmem with rfl | rfl | rfl | rfl <;> exact absurd hzero (by decide)

end RustPlc.Syntax
