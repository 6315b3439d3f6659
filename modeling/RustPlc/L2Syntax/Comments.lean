import RustPlc.L2Syntax.Grammar
import RustPlc.L2Syntax.Unranged

/-!
# Comments inside expressions
-/
namespace RustPlc.Syntax

open RustPlc.Ir Node

/-! ## Harmless comments -/

/-- An integer literal of value 0, which is what is read in place of a lost
operand. -/
def Node.isZero (n : Node) : Bool := n.kind == .integerLiteral && integerValue n.chars == 0

/-- The comments of one node change nothing: none stands before the operand
of a parenthesis or inside a range of a CASE branch, unless the operand that
is lost is 0; none stands between arguments or indices; and none with a
bracket stands in an access that has a dereference but no index. -/
def HarmlessAt (n : Node) : Prop :=
  match n.kind with
  | .parenthesizedExpression =>
    (∃ c, n.namedChildren.head? = some c ∧ c.isComment = true) → ∃ e ∈ n.children, e.isZero = true
  | .caseSelector =>
    (∃ c ∈ n.children, c.isComment = true) → ∃ e, n.children.getLast? = some e ∧ e.isZero = true
  | .argumentList => ∀ c ∈ n.children, c.isComment = false
  | .variableAccess =>
    (∀ group, .index group ∈ scanParts id none n.children → ∀ c ∈ group, c.isComment = false) ∧
    ((∃ c ∈ n.children, c.isComment = true ∧ '[' ∈ c.chars) →
      (∃ c ∈ n.children, c.text = "[") ∨ ∀ c ∈ n.children, c.text ≠ "^")
  | _ => True

/-- No comment of the tree changes what it is lowered to. -/
def Harmless (n : Node) : Prop := ∀ m, Within m n → HarmlessAt m

theorem harmless_iff {n : Node} : Harmless n ↔ HarmlessAt n ∧ ∀ c ∈ n.children, Harmless c := by
  simp only [Harmless, within_iff (n := n)]
  constructor
  · intro h
    exact ⟨h n (.inl rfl), fun c hc m hm => h m (.inr ⟨c, hc, hm⟩)⟩
  · rintro ⟨h, hs⟩ m (rfl | ⟨c, hc, hm⟩)
    · exact h
    · exact hs c hc m hm

theorem harmless_leaf {n : Node} (h : n.children = []) : Harmless n := by
  refine harmless_iff.mpr ⟨?_, by simp [h]⟩
  unfold HarmlessAt
  split <;> simp [h, namedChildren, scanParts]

/-- The nodes whose children are found by counting. -/
def countedKinds : List Kind :=
  [.parenthesizedExpression, .caseSelector, .argumentList, .variableAccess]

theorem harmlessAt_uncounted {n : Node} (h : n.kind ∉ countedKinds) : HarmlessAt n := by
  unfold HarmlessAt
  split <;> simp_all [countedKinds]

/-! ## Reading a tree with comments -/

/-- The role selects no comments by their kind. -/
def Role.noComment : Role → Bool
  | .field _ _ => true
  | .child k | .children k => !(k == .lineComment || k == .blockComment)

theorem roles_noComment {k : Kind} {r : Role} (h : r ∈ roles k) :
    match r with
    | .field _ _ => True
    | .child k' | .children k' => (k' == .lineComment || k' == .blockComment) = false := by
  have hall : (roles k).all Role.noComment = true := by
    cases k <;> rfl
  have hr := List.all_eq_true.mp hall r h
  cases r with
  | field f ks => trivial
  | child k' | children k' => simpa [Role.noComment] using hr

/-- A tree that follows the grammar, comments included. -/
structure Sound (n : Node) : Prop where
  commented : Commented n
  parsed : Parsed n.bare

namespace Sound

variable {n c : Node}

theorem placed (h : Sound n) : Placed n := h.commented n .refl

theorem shape (h : Sound n) : Shape n.bare := h.parsed n.bare .refl

theorem bare_mem (hc : c ∈ n.children) (hn : c.isComment = false) : c.bare ∈ n.bare.children := by
  rw [children_bare]
  exact List.mem_map_of_mem (List.mem_filter.mpr ⟨hc, by simp [hn]⟩)

theorem of_bare_mem {c0 : Node} (hc : c0 ∈ n.bare.children) :
    ∃ c ∈ n.children, c.isComment = false ∧ c.bare = c0 := by
  rw [children_bare] at hc
  obtain ⟨c, hf, rfl⟩ := List.mem_map.mp hc
  obtain ⟨hm, hn⟩ := List.mem_filter.mp hf
  exact ⟨c, hm, by simpa using hn, rfl⟩

theorem child (h : Sound n) (hc : c ∈ n.children) (hn : c.isComment = false) : Sound c :=
  ⟨(commented_iff.mp h.commented).2 c hc, fun m hm => h.parsed m (.child (bare_mem hc hn) hm)⟩

theorem notRoot (h : Sound n) (hc : c ∈ n.children) (hn : c.isComment = false) :
    c.kind ≠ .sourceFile := by
  simpa using h.shape.root c.bare (bare_mem hc hn)

/-- A node that has no children without its comments has no comments either. -/
theorem leaf (h : Sound n) (hr : n.kind ≠ .sourceFile) (hb : n.bare.children = []) :
    n.children = [] := by
  rw [children_bare, List.map_eq_nil_iff, List.filter_eq_nil_iff] at hb
  cases hcs : n.children with
  | nil => rfl
  | cons c cs =>
    have hc := hb c (by simp [hcs])
    have hend := h.placed.ends hr c (.inl (by simp [hcs]))
    simp [hend] at hc

theorem quiet (h : Sound n) (hc : c ∈ n.children) (hb : c.bare.children = []) : Harmless c := by
  cases hn : c.isComment with
  | true => exact harmless_leaf (h.placed.extra c hc hn).children
  | false => exact harmless_leaf ((h.child hc hn).leaf (h.notRoot hc hn) hb)

/-- Only the children the rules of the grammar name can hold a comment. -/
theorem harmless_roles (h : Sound n) : Harmless n ↔
    HarmlessAt n ∧ ∀ r ∈ roles n.kind, ∀ c ∈ n.children, r.selects c = true → Harmless c := by
  rw [harmless_iff]
  refine and_congr_right fun _ => ⟨fun hs r _ c hc _ => hs c hc, fun hs c hc => ?_⟩
  cases hn : c.isComment with
  | true => exact harmless_leaf (h.placed.extra c hc hn).children
  | false =>
    obtain hq | ⟨r, hr, hsel⟩ := h.shape.kids c.bare (bare_mem hc hn)
    · exact h.quiet hc hq
    · rw [kind_bare] at hr
      refine hs r hr c hc ?_
      cases r <;> simpa [Role.selects] using hsel

theorem selects_bare (r : Role) (c : Node) : r.selects c.bare = r.selects c := by
  cases r <;> simp [Role.selects]

/-- No rule selects a comment. -/
theorem selects_comment (h : Sound n) {r : Role} (hr : r ∈ roles n.kind) (hc : c ∈ n.children)
    (hs : r.selects c = true) : c.isComment = false := by
  cases hn : c.isComment with
  | false => rfl
  | true =>
    have hx := h.placed.extra c hc hn
    cases r with
    | field f ks => simp [Role.selects, hx.field] at hs
    | child k | children k =>
      have hk := roles_noComment hr
      obtain rfl : c.kind = k := by simpa [Role.selects] using hs
      rw [isComment] at hn
      simp [hn] at hk

/-- What a rule selects is the same with and without comments. -/
theorem selected_bare (h : Sound n) {r : Role} (hr : r ∈ roles n.kind) :
    n.bare.children.filter r.selects = (n.children.filter r.selects).map bare := by
  rw [children_bare, List.filter_map, List.filter_filter]
  congr 1
  refine List.filter_congr fun c hc => ?_
  rw [Function.comp_apply, selects_bare]
  cases hs : r.selects c with
  | false => rfl
  | true => simp [h.selects_comment hr hc hs]

theorem selected (h : Sound n) {r : Role} (hr : r ∈ roles n.kind) (hc : c ∈ n.children)
    (hs : r.selects c = true) : sizeOf c < sizeOf n ∧ Sound c ∧ c.kind ∈ r.kinds := by
  have hn := h.selects_comment hr hc hs
  refine ⟨sizeOf_child hc, h.child hc hn, ?_⟩
  rw [← kind_bare c]
  exact h.shape.kinds r (by simpa using hr) c.bare (bare_mem hc hn) (by rw [selects_bare, hs])

section

variable {α : Type} {g : Node → α} {u : α → α} {r : Role}

/-- The lists lowered from the selected children agree just when the comments
in these children are harmless. -/
theorem selected_agree (h : Sound n) (hr : r ∈ roles n.kind)
    (hg : ∀ c, sizeOf c < sizeOf n → Sound c → c.kind ∈ r.kinds →
      (u (g c) = g c.bare ↔ Harmless c)) :
    ((n.children.filter r.selects).map g).map u = (n.bare.children.filter r.selects).map g ↔
      ∀ c ∈ n.children, r.selects c = true → Harmless c := by
  rw [h.selected_bare hr, List.map_map, List.map_map, List.map_inj_left]
  simp only [List.mem_filter, and_imp, Function.comp_apply]
  refine forall_congr' fun c => forall_congr' fun hc => forall_congr' fun hs => ?_
  obtain ⟨hsize, hsound, hkind⟩ := h.selected hr hc hs
  exact hg c hsize hsound hkind

theorem selected_once (h : Sound n) (hr : r ∈ roles n.kind) (hs : r.single = true) :
    (n.children.filter r.selects).length ≤ 1 := by
  have := h.shape.once r (by simpa using hr) hs
  rwa [h.selected_bare hr, List.length_map] at this

theorem head_agree (h : Sound n) (hr : r ∈ roles n.kind) (hs : r.single = true)
    (hg : ∀ c, sizeOf c < sizeOf n → Sound c → c.kind ∈ r.kinds →
      (u (g c) = g c.bare ↔ Harmless c)) :
    ((n.children.find? r.selects).map g).map u = (n.bare.children.find? r.selects).map g ↔
      ∀ c ∈ n.children, r.selects c = true → Harmless c := by
  rw [← h.selected_agree hr hg, ← List.head?_filter, ← List.head?_filter, h.selected_bare hr]
  have hlen := h.selected_once hr hs
  match n.children.filter r.selects, hlen with
  | [], _ => simp
  | [c], _ => simp

end

/-! ## Words -/

theorem word_kinds : ∀ k ∈ wordKinds, k ≠ .sourceFile ∧ k ∉ countedKinds := by
  decide

/-- There is no place for a comment beside a single child. -/
theorem alone (h : Sound n) (hroot : n.kind ≠ .sourceFile) (hlen : n.bare.children.length ≤ 1) :
    n.children = [] ∨ ∃ c, n.children = [c] ∧ c.isComment = false ∧ n.bare.children = [c.bare] := by
  match hcs : n.children with
  | [] => exact .inl rfl
  | [c] =>
    have hn : c.isComment = false := h.placed.ends hroot c (.inl (by simp [hcs]))
    exact .inr ⟨c, rfl, hn, by simp [children_bare, hcs, hn]⟩
  | c :: d :: cs =>
    exfalso
    have hc := h.placed.ends hroot c (.inl (by simp [hcs]))
    obtain ⟨e, he⟩ : ∃ e, (d :: cs).getLast? = some e :=
      ⟨_, List.getLast?_eq_some_getLast (by simp)⟩
    have hlast := h.placed.ends hroot e (.inr (by rw [hcs, List.getLast?_cons_cons, he]))
    have hmem : e ∈ (d :: cs).filter fun c => !c.isComment :=
      List.mem_filter.mpr ⟨List.mem_of_getLast? he, by simp [hlast]⟩
    have hpos := List.length_pos_of_mem hmem
    have : n.bare.children.length = ((d :: cs).filter fun c => !c.isComment).length + 1 := by
      rw [children_bare, hcs, List.filter_cons, hc]
      simp
    omega

/-- A word has no comment inside. -/
theorem word (h : Sound n) (hk : n.kind ∈ wordKinds) :
    n.chars = n.bare.chars ∧ Harmless n := by
  have hroot : n.kind ≠ .sourceFile := (word_kinds n.kind hk).1
  have hat : HarmlessAt n := harmlessAt_uncounted (word_kinds n.kind hk).2
  obtain ⟨hlen, hleaf⟩ := h.shape.words (by simpa using hk)
  obtain hcs | ⟨c, hcs, hn, hb⟩ := h.alone hroot hlen
  · refine ⟨?_, harmless_leaf hcs⟩
    have hb : n.bare.children = [] := by simp [children_bare, hcs]
    rw [chars_eq, chars_eq n.bare, hcs, hb, word_bare]
  · have hc : c ∈ n.children := by simp [hcs]
    have hcb : c.bare.children = [] := hleaf c.bare (by simp [hb])
    have hcl : c.children = [] := (h.child hc hn).leaf (h.notRoot hc hn) hcb
    refine ⟨?_, harmless_iff.mpr ⟨hat, by simpa [hcs] using harmless_leaf hcl⟩⟩
    rw [chars_eq, chars_eq n.bare, hcs, hb, word_bare]
    simp only [charsOf, List.append_nil, chars_eq c, chars_eq c.bare, hcl, hcb, word_bare]

theorem word_text (h : Sound n) (hk : n.kind ∈ wordKinds) : n.text = n.bare.text := by
  rw [text, text, (h.word hk).1]

/-! ## Fields -/

section

variable {f : Field} {ks : List Kind}

theorem childByFieldName_bare (h : Sound n) (hr : .field f ks ∈ roles n.kind) :
    n.bare.childByFieldName f = (n.childByFieldName f).map bare := by
  have hsel := h.selected_bare hr
  have hfind (m : Node) : m.childByFieldName f =
      (m.children.filter (Role.field f ks).selects).head? := (List.head?_filter ..).symm
  rw [hfind, hfind, hsel, List.head?_map]

theorem field_agree (h : Sound n) (hr : .field f ks ∈ roles n.kind) {α : Type} {g : Node → α}
    {u : α → α} (hg : ∀ c, sizeOf c < sizeOf n → Sound c → c.kind ∈ ks →
      (u (g c) = g c.bare ↔ Harmless c)) :
    ((n.childByFieldName f).map g).map u = (n.bare.childByFieldName f).map g ↔
      ∀ c ∈ n.children, (Role.field f ks).selects c = true → Harmless c :=
  h.head_agree hr rfl hg

/-- The same with a value for a missing field. -/
theorem fieldD_agree (h : Sound n) (hr : .field f ks ∈ roles n.kind) {α : Type} {g : Node → α}
    {u : α → α} (hg : ∀ c, sizeOf c < sizeOf n → Sound c → c.kind ∈ ks →
      (u (g c) = g c.bare ↔ Harmless c)) {d e : α} (hd : u d = e) :
    u (((n.childByFieldName f).map g).getD d) =
        ((n.bare.childByFieldName f).map g).getD e ↔
      ∀ c ∈ n.children, (Role.field f ks).selects c = true → Harmless c := by
  rw [← h.field_agree hr hg, h.childByFieldName_bare hr]
  cases n.childByFieldName f <;> simp [hd]

theorem children_agree (h : Sound n) {k : Kind} (hr : .children k ∈ roles n.kind) {α : Type}
    {g : Node → α} {u : α → α} (hg : ∀ c, sizeOf c < sizeOf n → Sound c → c.kind = k →
      (u (g c) = g c.bare ↔ Harmless c)) :
    ((n.childrenOfKind k).map g).map u = (n.bare.childrenOfKind k).map g ↔
      ∀ c ∈ n.children, (Role.children k).selects c = true → Harmless c :=
  h.selected_agree hr fun c hc hs hk => hg c hc hs (by simpa [Role.kinds] using hk)

/-- The last child of a kind that has one at most. -/
theorem child_agree (h : Sound n) {k : Kind} (hr : .child k ∈ roles n.kind) {α : Type}
    {g : Node → α} {u : α → α} (hg : ∀ c, sizeOf c < sizeOf n → Sound c → c.kind = k →
      (u (g c) = g c.bare ↔ Harmless c)) :
    ((n.childrenOfKind k).map g).getLast?.map u = ((n.bare.childrenOfKind k).map g).getLast? ↔
      ∀ c ∈ n.children, (Role.child k).selects c = true → Harmless c := by
  have hagree := h.selected_agree (u := u) (g := g) hr fun c hc hs hk =>
    hg c hc hs (by simpa [Role.kinds] using hk)
  have hlen := h.selected_once hr rfl
  have hbare := h.selected_bare hr
  change (n.childrenOfKind k).length ≤ 1 at hlen
  change n.bare.childrenOfKind k = (n.childrenOfKind k).map bare at hbare
  change ((n.childrenOfKind k).map g).map u = (n.bare.childrenOfKind k).map g ↔ _ at hagree
  rw [← hagree, hbare]
  match n.childrenOfKind k, hlen with
  | [], _ => simp
  | [c], _ => simp

theorem field_word (h : Sound n) (hr : .field f ks ∈ roles n.kind) (hw : ∀ k ∈ ks, k ∈ wordKinds) :
    (n.bare.childByFieldName f).map Node.text = (n.childByFieldName f).map Node.text ∧
      ∀ c ∈ n.children, (Role.field f ks).selects c = true → Harmless c := by
  have hall : ∀ c ∈ n.children, (Role.field f ks).selects c = true → Harmless c := by
    intro c hc hs
    obtain ⟨-, hsound, hkind⟩ := h.selected hr hc hs
    exact (hsound.word (hw _ hkind)).2
  refine ⟨?_, hall⟩
  have := (h.field_agree (g := Node.text) (u := id) hr fun c _ hsound hkind =>
    iff_of_true (hsound.word_text (hw _ hkind)) (hsound.word (hw _ hkind)).2).mpr hall
  simpa using this.symm

end

end Sound

theorem Sound.fieldIdentifier {n : Node} (h : Sound n) {f : Field} {ks : List Kind}
    (hr : .field f ks ∈ roles n.kind) (hw : ∀ k ∈ ks, k ∈ wordKinds) :
    (fieldIdentifier n f).unranged = fieldIdentifier n.bare f := by
  have ht := (h.field_word hr hw).1
  have hb := h.childByFieldName_bare hr
  simp only [Syntax.fieldIdentifier]
  rw [hb] at ht ⊢
  cases hc : n.childByFieldName f with
  | none => simp [Identifier.unranged, dummyIdentifier]
  | some c =>
    rw [hc] at ht
    simp only [Option.map_some, Option.some.injEq] at ht
    simp [lowerIdentifier, Identifier.unranged, ht]

/-! ## Expressions -/

section

variable [F64Ops] {n : Node}

/-- What holds of the expressions below a node. -/
def BelowAgree (n : Node) : Prop :=
  ∀ c, sizeOf c < sizeOf n → Sound c → c.kind ∈ expressionKinds →
    ((lowerExpression c).unranged = lowerExpression c.bare ↔ Harmless c)

omit [F64Ops] in
theorem unranged_dummyExpression (n : Node) :
    (dummyExpression n).unranged = dummyExpression n.bare := by
  simp [dummyExpression, Expression.unranged]

theorem Sound.fieldExpression_agree (h : Sound n) {f : Field} (hr : exprRole f ∈ roles n.kind)
    (ih : BelowAgree n) : (fieldExpression n f).unranged = fieldExpression n.bare f ↔
      ∀ c ∈ n.children, (exprRole f).selects c = true → Harmless c :=
  h.fieldD_agree hr ih (unranged_dummyExpression n)

theorem Sound.optExpression_agree (h : Sound n) {f : Field} (hr : exprRole f ∈ roles n.kind)
    (ih : BelowAgree n) : ((n.childByFieldName f).map lowerExpression).map Expression.unranged =
        (n.bare.childByFieldName f).map lowerExpression ↔
      ∀ c ∈ n.children, (exprRole f).selects c = true → Harmless c :=
  h.field_agree hr ih

omit [F64Ops] in
theorem Sound.opText (h : Sound n) (hr : .field .op [.token] ∈ roles n.kind) :
    opText n.bare = opText n ∧
      ∀ c ∈ n.children, (Role.field .op [.token]).selects c = true → Harmless c := by
  obtain ⟨ht, hh⟩ := h.field_word hr (by decide)
  exact ⟨by rw [Syntax.opText, Syntax.opText, ht], hh⟩

theorem lowerExpression_unary (hk : n.kind = .unaryExpression) : lowerExpression n =
    .unary (unaryOp (opText n)) (fieldExpression n .operand) n.range := by
  rw [lowerExpression]
  simp only [hk]
  rw [lowerUnaryExpression, onField_eq]
  rfl

theorem unary_agree (h : Sound n) (hk : n.kind = .unaryExpression) (ih : BelowAgree n) :
    (lowerExpression n).unranged = lowerExpression n.bare ↔ Harmless n := by
  have hroles : roles n.kind = [.field .op [.token], exprRole .operand] := by rw [hk]; rfl
  obtain ⟨hop, hopc⟩ := h.opText (by simp [hroles])
  rw [lowerExpression_unary hk, lowerExpression_unary (by simpa using hk), Expression.unranged, hop,
    h.harmless_roles, hroles]
  simp only [Expression.unary.injEq, range_bare, true_and, and_true, List.forall_mem_cons,
    List.not_mem_nil, false_imp_iff, implies_true]
  rw [h.fieldExpression_agree (by simp [hroles]) ih]
  exact ⟨fun ho => ⟨harmlessAt_uncounted (by simp [hk, countedKinds]), hopc, ho⟩, fun ho => ho.2.2⟩

theorem lowerExpression_binary (hk : n.kind ∈ binaryKinds) : lowerExpression n =
    .binary (binaryOp (opText n)) (fieldExpression n .left) (fieldExpression n .right) n.range := by
  have hlower : lowerExpression n = lowerBinaryExpression n := by
    rw [lowerExpression]
    simp only [binaryKinds, List.mem_cons, List.not_mem_nil, or_false] at hk
    rcases hk with hk | hk | hk | hk | hk | hk <;> simp only [hk]
  rw [hlower, lowerBinaryExpression, onField_eq, onField_eq]
  rfl

omit [F64Ops] in
theorem roles_binary {k : Kind} (h : k ∈ binaryKinds) :
    roles k = [exprRole .left, .field .op [.token], exprRole .right] ∧ k ∉ countedKinds := by
  simp only [binaryKinds, List.mem_cons, List.not_mem_nil, or_false] at h
  rcases h with rfl | rfl | rfl | rfl | rfl | rfl <;> exact ⟨rfl, by decide⟩

theorem binary_agree (h : Sound n) (hk : n.kind ∈ binaryKinds) (ih : BelowAgree n) :
    (lowerExpression n).unranged = lowerExpression n.bare ↔ Harmless n := by
  obtain ⟨hroles, huncounted⟩ := roles_binary hk
  obtain ⟨hop, hopc⟩ := h.opText (by simp [hroles])
  rw [lowerExpression_binary hk, lowerExpression_binary (by simpa using hk), Expression.unranged,
    hop, h.harmless_roles, hroles]
  simp only [Expression.binary.injEq, range_bare, true_and, and_true, List.forall_mem_cons,
    List.not_mem_nil, false_imp_iff, implies_true]
  rw [h.fieldExpression_agree (by simp [hroles]) ih, h.fieldExpression_agree (by simp [hroles]) ih]
  exact ⟨fun ho => ⟨harmlessAt_uncounted huncounted, ho.1, hopc, ho.2⟩, fun ho => ⟨ho.2.1, ho.2.2.2⟩⟩

theorem word_agree (h : Sound n) (hk : n.kind ∈ expressionKinds) (hw : n.kind ∈ wordKinds) :
    (lowerExpression n).unranged = lowerExpression n.bare ↔ Harmless n := by
  refine iff_of_true ?_ (h.word hw).2
  have hc := (h.word hw).1
  have ht := h.word_text hw
  rw [lowerExpression, lowerExpression]
  simp only [kind_bare, range_bare]
  simp only [expressionKinds, literalKinds, binaryKinds, List.cons_append, List.nil_append,
    List.mem_cons, List.not_mem_nil, or_false] at hk
  rcases hk with hk | hk | hk | hk | hk | hk | hk | hk | hk | hk | hk | hk | hk | hk | hk | hk |
    hk | hk | hk | hk | hk | hk <;>
    first
    | (rw [hk] at hw; exact absurd hw (by decide))
    | simp only [hk, Expression.unranged, lowerIntegerLiteral, lowerRealLiteral, lowerStringLiteral,
        lowerBooleanLiteral, hc, ht]

theorem typed_agree (h : Sound n) (hk : n.kind = .typedLiteral) :
    (lowerExpression n).unranged = lowerExpression n.bare ↔ Harmless n := by
  have hty : Role.field .type [.token] ∈ roles n.kind := by rw [hk]; exact List.mem_cons_self
  have hval : Role.field .value [.integerLiteral, .realLiteral] ∈ roles n.kind := by
    rw [hk]; exact List.mem_cons_of_mem _ List.mem_cons_self
  obtain ⟨htext, htc⟩ := h.field_word hty (by decide)
  obtain ⟨hvtext, hvc⟩ := h.field_word hval (by decide)
  refine iff_of_true ?_ (h.harmless_roles.mpr
    ⟨harmlessAt_uncounted (by simp [hk, countedKinds]), ?_⟩)
  · have htype (m : Node) : (m.childByFieldName .type).map (fun c => parseElementaryType c.text) =
        ((m.childByFieldName .type).map Node.text).map parseElementaryType := by
      rw [Option.map_map]; rfl
    rw [lowerExpression, lowerExpression]
    simp only [kind_bare, hk, Expression.unranged, lowerTypedLiteral, htype, htext, hvtext, range_bare]
  · rw [hk]
    intro r hr
    simp only [roles, List.mem_cons, List.not_mem_nil, or_false] at hr
    rcases hr with rfl | rfl
    · exact htc
    · exact hvc

/-! ## Names and arguments -/

omit [F64Ops] in
theorem childrenOfKind_bare {k : Kind} (hk : k ≠ .lineComment ∧ k ≠ .blockComment) :
    n.bare.childrenOfKind k = (n.childrenOfKind k).map bare := by
  rw [childrenOfKind, childrenOfKind, children_bare, List.filter_map, List.filter_filter]
  congr 1
  refine List.filter_congr fun c _ => ?_
  by_cases hc : c.kind = k
  · simp [isComment, hc, hk]
  · simp [hc]

omit [F64Ops] in
theorem Sound.identifier {c : Node} (h : Sound n) (hc : c ∈ n.children)
    (hk : c.kind = .identifier) : c.text = c.bare.text := by
  have hn : c.isComment = false := by simp [isComment, hk]
  exact (h.child hc hn).word_text (by rw [hk]; decide)

omit [F64Ops] in
theorem qualified_agree (h : Sound n) (hk : n.kind = .qualifiedName) :
    (lowerQualifiedName n).unranged = lowerQualifiedName n.bare ↔ Harmless n := by
  refine iff_of_true ?_ (h.harmless_roles.mpr
    ⟨harmlessAt_uncounted (by simp [hk, countedKinds]), by rw [hk]; simp [roles]⟩)
  simp only [lowerQualifiedName, QualifiedName.unranged, range_bare, QualifiedName.mk.injEq,
    and_true]
  rw [childrenOfKind_bare (by decide), List.map_map, List.map_map, List.map_inj_left]
  intro c hc
  obtain ⟨hm, hkind⟩ := List.mem_filter.mp hc
  simp [lowerIdentifier, Identifier.unranged, h.identifier hm (by simpa using hkind)]

omit [F64Ops] in
/-- A list read with its comments agrees only when it has none. -/
theorem counted_agree {α : Type} {g : Node → α} {u : α → α} (xs : List Node) :
    (xs.map g).map u = (bareOf xs).map g ↔
      (∀ c ∈ xs, c.isComment = false) ∧ ∀ c ∈ xs, u (g c) = g c.bare := by
  constructor
  · intro h
    have hlen := congrArg List.length h
    simp only [List.length_map, bareOf_eq] at hlen
    have hall : ∀ c ∈ xs, c.isComment = false := by
      have := (List.length_filter_eq_length_iff (p := fun c : Node => !c.isComment)).mp hlen.symm
      simpa using this
    refine ⟨hall, ?_⟩
    have hbare : bareOf xs = xs.map bare := by
      rw [bareOf_eq, List.filter_eq_self.mpr (by simpa using hall)]
    rw [hbare, List.map_map, List.map_map, List.map_inj_left] at h
    exact h
  · rintro ⟨hall, hg⟩
    have hbare : bareOf xs = xs.map bare := by
      rw [bareOf_eq, List.filter_eq_self.mpr (by simpa using hall)]
    rw [hbare, List.map_map, List.map_map, List.map_inj_left]
    exact hg

omit [F64Ops] in
theorem namedChildren_bare : n.bare.namedChildren = bareOf n.namedChildren := by
  rw [namedChildren, namedChildren, children_bare, bareOf_eq, List.filter_map, List.filter_filter,
    List.filter_filter]
  congr 1
  refine List.filter_congr fun c _ => ?_
  simp [Bool.and_comm]

theorem BelowAgree.below {c : Node} (ih : BelowAgree n) (hc : sizeOf c < sizeOf n) : BelowAgree c :=
  fun d hd => ih d (by omega)

theorem argument_agree (h : Sound n) (hk : n.kind = .namedArgument ∨ n.kind ∈ expressionKinds)
    (ih : BelowAgree n) (hself : n.kind ∈ expressionKinds →
      ((lowerExpression n).unranged = lowerExpression n.bare ↔ Harmless n)) :
    (lowerArgument n).unranged = lowerArgument n.bare ↔ Harmless n := by
  rw [lowerArgument, lowerArgument, kind_bare]
  by_cases hna : n.kind = .namedArgument
  · have hroles : roles n.kind = [nameRole, exprRole .value] := by rw [hna]; rfl
    have hname : Role.field .name [.identifier] ∈ roles n.kind := by
      rw [hroles]; exact List.mem_cons_self
    rw [if_pos hna, if_pos hna, onField_eq, onField_eq, Argument.unranged,
      h.fieldIdentifier hname (by decide), h.harmless_roles, hroles]
    simp only [Argument.named.injEq, true_and, List.forall_mem_cons, List.not_mem_nil,
      false_imp_iff, implies_true, and_true]
    have he := h.fieldExpression_agree (f := .value) (by simp [hroles]) ih
    simp only [fieldExpression] at he
    rw [he]
    exact ⟨fun ho => ⟨harmlessAt_uncounted (by simp [hna, countedKinds]),
      (h.field_word hname (by decide)).2, ho⟩, fun ho => ho.2.2⟩
  · rw [if_neg hna, if_neg hna, Argument.unranged]
    simp only [Argument.positional.injEq]
    exact hself (hk.resolve_left hna)

theorem argumentList_agree (h : Sound n) (hk : n.kind = .argumentList) (ih : BelowAgree n) :
    (lowerArgumentList n).map Argument.unranged = lowerArgumentList n.bare ↔ Harmless n := by
  have hord := h.shape.ordered
  simp only [Ordered, kind_bare, hk] at hord
  rw [lowerArgumentList, lowerArgumentList, onNamed_eq, onNamed_eq, namedChildren_bare,
    counted_agree, harmless_iff]
  have hat : HarmlessAt n ↔ ∀ c ∈ n.children, c.isComment = false := by
    simp only [HarmlessAt, hk]
  rw [hat]
  have hnamed : ∀ c ∈ n.children, c.isComment = true → c.named = true := fun c hc hn =>
    (h.placed.extra c hc hn).named
  have harg : ∀ c ∈ n.children, c.isComment = false →
      (Punct "," c.bare ∧ c.named = false ∧ Harmless c) ∨
        c.named = true ∧ ((lowerArgument c).unranged = lowerArgument c.bare ↔ Harmless c) := by
    intro c hc hn
    have hs := h.child hc hn
    obtain hp | ⟨hc1, hc2⟩ := hord c.bare (Sound.bare_mem hc hn)
    · exact .inl ⟨hp, by simpa using hp.anonymous, h.quiet hc hp.children⟩
    · refine .inr ⟨by simpa using hc1, ?_⟩
      have hsize := sizeOf_child hc
      rw [kind_bare] at hc2
      exact argument_agree hs hc2 (ih.below hsize) fun hke => ih c hsize hs hke
  constructor
  · rintro ⟨hno, hall⟩
    have hno' : ∀ c ∈ n.children, c.isComment = false := by
      intro c hc
      cases hn : c.isComment with
      | false => rfl
      | true =>
        rw [← hn]
        exact hno c (List.mem_filter.mpr ⟨hc, hnamed c hc hn⟩)
    refine ⟨hno', fun c hc => ?_⟩
    obtain ⟨-, -, hq⟩ | ⟨hnm, hagree⟩ := harg c hc (hno' c hc)
    · exact hq
    · exact hagree.mp (hall c (List.mem_filter.mpr ⟨hc, hnm⟩))
  · rintro ⟨hno, hall⟩
    refine ⟨fun c hc => hno c (List.mem_of_mem_filter hc), fun c hc => ?_⟩
    obtain ⟨hmem, hnm⟩ := List.mem_filter.mp hc
    obtain ⟨-, hnot, -⟩ | ⟨-, hagree⟩ := harg c hmem (hno c hmem)
    · simp [hnot] at hnm
    · exact hagree.mpr (hall c hmem)

def FunctionCallExpr.unranged (c : FunctionCallExpr) : FunctionCallExpr :=
  ⟨c.name.unranged, c.arguments.map Argument.unranged, noRange⟩

theorem functionCall_agree (h : Sound n) (hk : n.kind = .functionCall) (ih : BelowAgree n) :
    (lowerFunctionCall n).unranged = lowerFunctionCall n.bare ↔ Harmless n := by
  have hroles : roles n.kind = [.field .name [.qualifiedName], .field .arguments [.argumentList]] := by
    rw [hk]; rfl
  have hname := h.fieldD_agree (f := .name) (g := lowerQualifiedName) (u := QualifiedName.unranged)
    (d := ⟨[dummyIdentifier n], n.range⟩) (by rw [hroles]; exact List.mem_cons_self)
    (fun c _ hs hkind => qualified_agree hs (by simpa using hkind)) rfl
  have hargs := h.fieldD_agree (f := .arguments) (g := lowerArgumentList)
    (u := List.map Argument.unranged) (d := [])
    (by rw [hroles]; exact List.mem_cons_of_mem _ List.mem_cons_self)
    (fun c hc hs hkind => argumentList_agree hs (by simpa using hkind) (ih.below hc)) rfl
  rw [lowerFunctionCall, lowerFunctionCall, onField_eq, onField_eq, FunctionCallExpr.unranged,
    h.harmless_roles, hroles]
  simp only [FunctionCallExpr.mk.injEq, range_bare, and_true, List.forall_mem_cons,
    List.not_mem_nil, false_imp_iff, implies_true]
  rw [← hname, ← hargs]
  have hdummy : (⟨[dummyIdentifier n], n.range⟩ : QualifiedName).unranged =
      ⟨[dummyIdentifier n.bare], noRange⟩ := by
    simp [QualifiedName.unranged, Identifier.unranged, dummyIdentifier]
  rw [hdummy]
  exact ⟨fun ho => ⟨harmlessAt_uncounted (by simp [hk, countedKinds]), ho⟩, fun ho => ho.2⟩

/-! ## Parentheses -/

/-- A comment where an expression is expected is read as 0. -/
theorem lowerExpression_comment {c : Node} (h : Extra c) :
    lowerExpression c = .literal (.integer 0) c.range := by
  have hk : c.kind = .lineComment ∨ c.kind = .blockComment := by simpa [isComment] using h.comment
  have hnone : c.namedChildren[0]? = none := by simp [namedChildren, h.children]
  rw [lowerExpression]
  rcases hk with hk | hk <;>
    simp only [hk, onNamedChild_eq, hnone, Option.map_none, Option.getD_none, dummyExpression]

theorem lowerExpression_zero (h : Sound n) (hk : n.kind ∈ expressionKinds) :
    lowerExpression n.bare = .literal (.integer 0) noRange ↔ n.isZero = true := by
  rw [isZero]
  by_cases hi : n.kind = .integerLiteral
  · have hc := (h.word (by rw [hi]; decide)).1
    rw [lowerExpression]
    simp [hi, lowerIntegerLiteral, hc]
  · rw [lowerExpression]
    simp only [kind_bare]
    simp only [expressionKinds, literalKinds, binaryKinds, List.cons_append, List.nil_append,
      List.mem_cons, List.not_mem_nil, or_false, hi, false_or] at hk
    rcases hk with hk | hk | hk | hk | hk | hk | hk | hk | hk | hk | hk | hk | hk | hk | hk | hk |
      hk | hk | hk | hk | hk <;>
      simp [hk, lowerRealLiteral, lowerStringLiteral, lowerBooleanLiteral, lowerTypedLiteral,
        lowerBinaryExpression, lowerUnaryExpression]

omit [F64Ops] in
/-- The children apart from the comments, one by one. -/
theorem Sound.three {a b c : Node} (hcs : n.bare.children = [a, b, c]) :
    ∃ a' b' c', (n.children.filter fun c => !c.isComment) = [a', b', c'] ∧ a'.bare = a ∧
      b'.bare = b ∧ c'.bare = c := by
  rw [children_bare] at hcs
  obtain ⟨a', as, has, rfl, h1⟩ := List.map_eq_cons_iff.mp hcs
  obtain ⟨b', bs, rfl, rfl, h2⟩ := List.map_eq_cons_iff.mp h1
  obtain ⟨c', cs, rfl, rfl, h3⟩ := List.map_eq_cons_iff.mp h2
  obtain rfl := List.map_eq_nil_iff.mp h3
  exact ⟨a', b', c', has, rfl, rfl, rfl⟩

omit [F64Ops] in
theorem mem_sig {c : Node} {xs : List Node}
    (h : (n.children.filter fun c => !c.isComment) = xs) (hn : c.isComment = false) :
    c ∈ n.children ↔ c ∈ xs := by
  rw [← h, List.mem_filter]
  simp [hn]

theorem lowerExpression_parenthesized (hk : n.kind = .parenthesizedExpression) :
    lowerExpression n =
      .parenthesized ((n.namedChildren[0]?.map lowerExpression).getD (dummyExpression n)) := by
  rw [lowerExpression]
  simp only [hk, onNamedChild_eq]

theorem parenthesized_agree (h : Sound n) (hk : n.kind = .parenthesizedExpression)
    (ih : BelowAgree n) :
    (lowerExpression n).unranged = lowerExpression n.bare ↔ Harmless n := by
  have hord := h.shape.ordered
  simp only [Ordered, kind_bare, hk] at hord
  obtain ⟨l0, e0, r0, hcs, hl, hr, hnamed, hkind⟩ := hord
  obtain ⟨l, e, r, hsig, rfl, rfl, rfl⟩ := Sound.three hcs
  simp only [kind_bare, named_bare] at hnamed hkind
  have hmem : ∀ x ∈ [l, e, r], x ∈ n.children ∧ x.isComment = false := by
    intro x hx
    rw [← hsig] at hx
    obtain ⟨hx, hn⟩ := List.mem_filter.mp hx
    exact ⟨hx, by simpa using hn⟩
  obtain ⟨hec, hen⟩ := hmem e (by simp)
  have hes := h.child hec hen
  have hquiet : Harmless l ∧ Harmless r :=
    ⟨h.quiet (hmem l (by simp)).1 hl.children, h.quiet (hmem r (by simp)).1 hr.children⟩
  have hln : l.named = false := by simpa using hl.anonymous
  have hrn : r.named = false := by simpa using hr.anonymous
  have hbare : n.bare.namedChildren[0]? = some e.bare := by
    simp [namedChildren, hcs, hln, hnamed]
  -- what stands first among the named children: a comment or the operand
  obtain ⟨x, hx⟩ : ∃ x, n.namedChildren.head? = some x := by
    cases hnc : n.namedChildren with
    | nil =>
      have : e ∈ n.namedChildren := List.mem_filter.mpr ⟨hec, hnamed⟩
      simp [hnc] at this
    | cons x xs => exact ⟨x, rfl⟩
  obtain ⟨hxc, hxn⟩ := List.mem_filter.mp (List.mem_of_mem_head? hx)
  have hharmless : Harmless n ↔ HarmlessAt n ∧ Harmless e := by
    rw [harmless_iff]
    refine and_congr_right fun _ => ⟨fun hall => hall e hec, fun he c hc => ?_⟩
    cases hn : c.isComment with
    | true => exact harmless_leaf (h.placed.extra c hc hn).children
    | false =>
      have hc' := (mem_sig hsig hn).mp hc
      simp only [List.mem_cons, List.not_mem_nil, or_false] at hc'
      rcases hc' with rfl | rfl | rfl
      · exact hquiet.1
      · exact he
      · exact hquiet.2
  have hat : HarmlessAt n ↔ (x.isComment = true → ∃ e ∈ n.children, e.isZero = true) := by
    simp [HarmlessAt, hk, hx]
  rw [lowerExpression_parenthesized hk, lowerExpression_parenthesized (by simpa using hk), hbare,
    ← List.head?_eq_getElem?, hx, hharmless, hat]
  simp only [Option.map_some, Option.getD_some, Expression.unranged, Expression.parenthesized.injEq]
  cases hxcom : x.isComment with
  | true =>
    rw [lowerExpression_comment (h.placed.extra x hxc hxcom), Expression.unranged, eq_comm,
      lowerExpression_zero hes hkind]
    constructor
    · intro hz
      have hint : e.kind = .integerLiteral := by
        simp only [isZero, Bool.and_eq_true, beq_iff_eq] at hz
        exact hz.1
      exact ⟨fun _ => ⟨e, hec, hz⟩, (hes.word (by rw [hint]; decide)).2⟩
    · rintro ⟨hz, -⟩
      obtain ⟨y, hy, hyz⟩ := hz rfl
      have hint : y.kind = .integerLiteral := by
        simp only [isZero, Bool.and_eq_true, beq_iff_eq] at hyz
        exact hyz.1
      have hy' := (mem_sig hsig (by simp [isComment, hint])).mp hy
      simp only [List.mem_cons, List.not_mem_nil, or_false] at hy'
      rcases hy' with rfl | rfl | rfl
      · have := hl.kind
        rw [kind_bare, hint] at this
        cases this
      · exact hyz
      · have := hr.kind
        rw [kind_bare, hint] at this
        cases this
  | false =>
    have hx' := (mem_sig hsig hxcom).mp hxc
    simp only [List.mem_cons, List.not_mem_nil, or_false] at hx'
    rcases hx' with rfl | rfl | rfl
    · simp [hln] at hxn
    · rw [ih x (sizeOf_child hec) hes hkind]
      simp
    · simp [hrn] at hxn

end

end RustPlc.Syntax
