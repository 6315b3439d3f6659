import RustPlc.L2Syntax.Comments

/-!
# Comments inside variable accesses

`lower_variable_access` walks over the children twice: the second walk, made
when the text has a bracket, takes every named node between brackets for an
index and drops dereferences.
-/
namespace RustPlc.Syntax

open RustPlc.Ir Node

/-! ## Words of an access -/

theorem text_eq_iff {c : Node} {w : String} : c.text = w ↔ c.chars = w.toList := by
  rw [text]
  constructor
  · intro h
    rw [← h, String.toList_ofList]
  · intro h
    rw [h, String.ofList_toList]

theorem Punct.text {w : String} {c : Node} (h : Punct w c) : c.text = w := by
  rw [text_eq_iff, chars_eq, h.children, h.word]
  simp [charsOf]

/-- The text of a comment is no punctuation. -/
theorem Node.Extra.text_ne {c : Node} (h : Extra c) {w : String} (hw : w.toList.length = 1) :
    c.text ≠ w := by
  obtain ⟨a, b, rest, hc, -⟩ := h.opens
  rw [Ne, text_eq_iff, hc]
  intro he
  rw [← he] at hw
  simp at hw

/-- The brackets of an access: behind `[` stand expressions and commas up to
`]`, elsewhere words. -/
def Bracketed : Bool → List Node → Prop
  | _, [] => True
  | false, c :: cs =>
    if c.text = "[" then Punct "[" c ∧ Bracketed true cs
    else c.children = [] ∧ Bracketed false cs
  | true, c :: cs =>
    if c.text = "]" then Punct "]" c ∧ Bracketed false cs
    else (Punct "," c ∨ c.named = true ∧ c.kind ∈ expressionKinds ∧ c.text ≠ ",") ∧
      Bracketed true cs

theorem bracketed_index {es cs : List Node} {r : Node}
    (hes : ∀ e ∈ es, Punct "," e ∨ e.named = true ∧ e.kind ∈ expressionKinds ∧ e.text ≠ ",")
    (hne : ∀ e ∈ es, e.text ≠ "]") (hr : Punct "]" r) (h : Bracketed false cs) :
    Bracketed true (es ++ r :: cs) := by
  induction es with
  | nil => simpa [Bracketed, hr.text, hr] using h
  | cons e es ih =>
    rw [List.cons_append, Bracketed, if_neg (hne e List.mem_cons_self)]
    exact ⟨hes e List.mem_cons_self, ih (fun x hx => hes x (List.mem_cons_of_mem _ hx))
      fun x hx => hne x (List.mem_cons_of_mem _ hx)⟩

/-- What the lowering may assume of a child of an access without comments. -/
structure AccessChild (c : Node) : Prop where
  name : c.kind = .identifier ∨ c.kind = .partialAccess →
    c.children = [] ∧ '[' ∉ c.chars ∧ '^' ∉ c.chars
  expression : c.kind ∈ expressionKinds → ∀ w ∈ ["[", "]", ",", "^"], c.text ≠ w

theorem Suffixes.bracketed {cs : List Node} (h : Suffixes cs) (hc : ∀ c ∈ cs, AccessChild c) :
    Bracketed false cs := by
  induction h with
  | nil => trivial
  | @dot d i cs hd hi _ ih =>
    have hname := (hc i (by simp)).name (.inl hi)
    have hit : i.text ≠ "[" := by
      rw [Ne, text_eq_iff]
      intro he
      exact hname.2.1 (by simp [he])
    rw [Bracketed, if_neg (by simp [hd.text]), Bracketed, if_neg hit]
    exact ⟨hd.children, hname.1, ih fun c h => hc c (by simp [h])⟩
  | @deref d cs hd _ ih =>
    rw [Bracketed, if_neg (by simp [hd.text])]
    exact ⟨hd.children, ih fun c h => hc c (by simp [h])⟩
  | @partialAccess p cs hp _ ih =>
    have hname := (hc p (by simp)).name (.inr hp)
    have hpt : p.text ≠ "[" := by
      rw [Ne, text_eq_iff]
      intro he
      exact hname.2.1 (by simp [he])
    rw [Bracketed, if_neg hpt]
    exact ⟨hname.1, ih fun c h => hc c (by simp [h])⟩
  | @index l r es cs hl hes hr _ ih =>
    rw [List.cons_append, Bracketed, if_pos hl.text]
    refine ⟨hl, bracketed_index (fun e he => ?_) (fun e he => ?_) hr
      (ih fun c h => hc c (by simp [h]))⟩
    · refine (hes e he).imp id fun ⟨hn, hk⟩ => ⟨hn, hk, ?_⟩
      exact (hc e (by simp [he])).expression hk "," (by simp)
    · rcases hes e he with hp | ⟨-, hk⟩
      · rw [hp.text]
        decide
      · exact (hc e (by simp [he])).expression hk "]" (by simp)

/-- Without an index no part of an access has a bracket. -/
theorem Suffixes.noBracket {cs : List Node} (h : Suffixes cs) (hc : ∀ c ∈ cs, AccessChild c)
    (hno : ∀ c ∈ cs, c.text ≠ "[") : ∀ c ∈ cs, c.children = [] ∧ '[' ∉ c.chars := by
  induction h with
  | nil => simp
  | @dot d i cs hd hi _ ih =>
    intro c hmem
    simp only [List.mem_cons] at hmem
    rcases hmem with rfl | rfl | hmem
    · exact ⟨hd.children, by rw [text_eq_iff.mp hd.text]; decide⟩
    · have hname := (hc c (by simp)).name (.inl hi)
      exact ⟨hname.1, hname.2.1⟩
    · exact ih (fun c h => hc c (by simp [h])) (fun c h => hno c (by simp [h])) c hmem
  | @deref d cs hd _ ih =>
    intro c hmem
    rcases List.mem_cons.mp hmem with rfl | hmem
    · exact ⟨hd.children, by rw [text_eq_iff.mp hd.text]; decide⟩
    · exact ih (fun c h => hc c (by simp [h])) (fun c h => hno c (by simp [h])) c hmem
  | @partialAccess p cs hp _ ih =>
    intro c hmem
    rcases List.mem_cons.mp hmem with rfl | hmem
    · have hname := (hc c (by simp)).name (.inr hp)
      exact ⟨hname.1, hname.2.1⟩
    · exact ih (fun c h => hc c (by simp [h])) (fun c h => hno c (by simp [h])) c hmem
  | @index l r es cs hl hes hr _ ih =>
    exact absurd hl.text (hno l (by simp))

/-! ## The second walk -/

/-- A child of an access reads like itself without comments. -/
structure ReadsAs (c : Node) : Prop where
  comment : c.isComment = true → Extra c
  punct : ∀ w ∈ ["[", "]", ",", "^"], c.isComment = false → (c.text = w ↔ c.bare.text = w)
  name : c.kind = .identifier ∨ c.kind = .partialAccess → c.chars = c.bare.chars

def RawPart.bare : RawPart Node → RawPart Node
  | .part p => .part p.unranged
  | .index group => .index (bareOf group)

theorem partialAccess_unranged {cs : List Char} {p : AccessPart} (h : parsePartialAccess cs = some p) :
    p.unranged = p := by
  unfold parsePartialAccess at h
  split at h
  · simp only [Option.bind_eq_some_iff, Option.map_eq_some_iff] at h
    obtain ⟨i, -, k, -, rfl⟩ := h
    rfl
  · simp at h

theorem scanParts_bare {cs : List Node} (hcs : ∀ c ∈ cs, ReadsAs c) (m : Option (List Node)) :
    scanParts id (m.map bareOf) (bareOf cs) = (scanParts id m cs).map RawPart.bare := by
  induction cs generalizing m with
  | nil => cases m <;> simp [scanParts, bareOf, RawPart.bare]
  | cons c cs ih =>
    have hc := hcs c List.mem_cons_self
    have ih' := ih fun c h => hcs c (List.mem_cons_of_mem _ h)
    cases hn : c.isComment with
    | true =>
      have hx := hc.comment hn
      have hk : c.kind ≠ .identifier ∧ c.kind ≠ .partialAccess := by
        constructor <;> (intro hk; simp [isComment, hk] at hn)
      rw [bareOf, if_pos hn]
      cases m with
      | none =>
        rw [scanParts]
        simp only [id_eq, if_neg hk.1, if_neg hk.2, if_neg (hx.text_ne (w := "[") rfl)]
        exact ih' none
      | some group =>
        have hgroup : bareOf (group ++ [c]) = bareOf group := by
          simp [bareOf_append, bareOf, hn]
        rw [scanParts]
        simp only [id_eq, if_neg (hx.text_ne (w := "]") rfl), hx.named, hx.text_ne (w := ",") rfl,
          ne_eq, not_false_iff, decide_true, Bool.and_true, if_true]
        rw [← ih' (some (group ++ [c])), Option.map_some, Option.map_some, hgroup]
    | false =>
      have hopen := hc.punct "[" (by simp) hn
      have hclose := hc.punct "]" (by simp) hn
      have hcomma := hc.punct "," (by simp) hn
      rw [bareOf, if_neg (by simp [hn])]
      cases m with
      | none =>
        simp only [Option.map_none, scanParts, id_eq, kind_bare, ← hopen]
        by_cases hident : c.kind = .identifier
        · have hch := hc.name (.inl hident)
          rw [if_pos hident, if_pos hident, List.map_cons, ← ih' none]
          simp [RawPart.bare, AccessPart.unranged, lowerIdentifier, Identifier.unranged, text, hch]
        · rw [if_neg hident, if_neg hident]
          by_cases hb : c.text = "["
          · rw [if_pos hb, if_pos hb]
            exact ih' (some [])
          · rw [if_neg hb, if_neg hb]
            by_cases hp : c.kind = .partialAccess
            · rw [if_pos hp, if_pos hp, ← hc.name (.inr hp)]
              cases hpp : parsePartialAccess c.chars with
              | none => exact ih' none
              | some p =>
                simp only [List.map_cons, RawPart.bare, partialAccess_unranged hpp]
                rw [← ih' none, Option.map_none]
            · rw [if_neg hp, if_neg hp]
              exact ih' none
      | some group =>
        simp only [Option.map_some, scanParts, id_eq, named_bare, ← hclose, ne_eq, ← hcomma]
        by_cases hb : c.text = "]"
        · rw [if_pos hb, if_pos hb, List.map_cons, ← ih' none]
          rfl
        · rw [if_neg hb, if_neg hb]
          split
          · have hgroup : bareOf group ++ [c.bare] = bareOf (group ++ [c]) := by
              simp [bareOf_append, bareOf, hn]
            rw [hgroup]
            exact ih' (some (group ++ [c]))
          · exact ih' (some group)

/-- The groups of indices the walk finds: every child that is more than a word
is in one, so is what the open bracket holds already, and whatever is in one
is an expression or a comment. -/
structure Groups (m : Option (List Node)) (cs : List Node) : Prop where
  covered : ∀ c ∈ cs, c.isComment = false →
    c.bare.children = [] ∨ ∃ g, .index g ∈ scanParts id m cs ∧ c ∈ g
  kept : ∀ g0, m = some g0 → ∃ g, .index g ∈ scanParts id m cs ∧ ∀ c ∈ g0, c ∈ g
  members : ∀ g, .index g ∈ scanParts id m cs → ∀ c ∈ g, c ∈ m.getD [] ∨
    c ∈ cs ∧ (c.isComment = true ∨ c.kind ∈ expressionKinds)

/-- One step of the walk, from the mode `m` to the mode `m'`. -/
theorem Groups.step {m m' : Option (List Node)} {c : Node} {cs : List Node}
    {p : List (RawPart Node)} (h : Groups m' cs)
    (hscan : scanParts id m (c :: cs) = p ++ scanParts id m' cs)
    (hself : c.isComment = false → c.bare.children = [] ∨ c ∈ m'.getD [])
    (hopen : ∀ g0, m = some g0 → .index g0 ∈ p ∨ ∃ g1, m' = some g1 ∧ ∀ d ∈ g0, d ∈ g1)
    (hnew : ∀ d ∈ m'.getD [], d ∈ m.getD [] ∨
      d = c ∧ (c.isComment = true ∨ c.kind ∈ expressionKinds))
    (hparts : ∀ g, .index g ∈ p → ∀ d ∈ g, d ∈ m.getD []) : Groups m (c :: cs) := by
  refine ⟨fun d hd hn => ?_, fun g0 hm => ?_, fun g hg d hd => ?_⟩
  · rw [hscan]
    rcases List.mem_cons.mp hd with rfl | hd
    · obtain hq | hin := hself hn
      · exact .inl hq
      · cases m' with
        | none => simp at hin
        | some g1 =>
          obtain ⟨g, hg, hsub⟩ := h.kept g1 rfl
          exact .inr ⟨g, List.mem_append_right _ hg, hsub d hin⟩
    · obtain hq | ⟨g, hg, hdg⟩ := h.covered d hd hn
      · exact .inl hq
      · exact .inr ⟨g, List.mem_append_right _ hg, hdg⟩
  · rw [hscan]
    obtain hg | ⟨g1, hm', hsub⟩ := hopen g0 hm
    · exact ⟨g0, List.mem_append_left _ hg, fun _ hd => hd⟩
    · obtain ⟨g, hg, hsub'⟩ := h.kept g1 hm'
      exact ⟨g, List.mem_append_right _ hg, fun d hd => hsub' d (hsub d hd)⟩
  · rw [hscan] at hg
    rcases List.mem_append.mp hg with hg | hg
    · exact .inl (hparts g hg d hd)
    · obtain hin | ⟨hin, hkind⟩ := h.members g hg d hd
      · obtain hin | ⟨rfl, hkind⟩ := hnew d hin
        · exact .inl hin
        · exact .inr ⟨List.mem_cons_self, hkind⟩
      · exact .inr ⟨List.mem_cons_of_mem _ hin, hkind⟩

theorem scanParts_groups {cs : List Node} (hcs : ∀ c ∈ cs, ReadsAs c) (m : Option (List Node))
    (hb : Bracketed m.isSome (bareOf cs)) : Groups m cs := by
  induction cs generalizing m with
  | nil => cases m <;> exact ⟨by simp, by simp [scanParts], by simp [scanParts]⟩
  | cons c cs ih =>
    have hc := hcs c List.mem_cons_self
    have next := ih fun c h => hcs c (List.mem_cons_of_mem _ h)
    cases hn : c.isComment with
    | true =>
      have hx := hc.comment hn
      have hk : c.kind ≠ .identifier ∧ c.kind ≠ .partialAccess := by
        constructor <;> (intro hk; simp [isComment, hk] at hn)
      rw [bareOf, if_pos hn] at hb
      cases m with
      | none =>
        refine (next none hb).step (p := []) ?_ (by simp [hn]) (by simp) (by simp) (by simp)
        rw [scanParts]
        simp [hk, hx.text_ne (w := "[") rfl]
      | some group =>
        refine (next (some (group ++ [c])) hb).step (p := []) ?_ (by simp [hn]) ?_ ?_ (by simp)
        · rw [scanParts]
          simp [hx.text_ne (w := "]") rfl, hx.text_ne (w := ",") rfl, hx.named]
        · rintro g0 ⟨⟩
          exact .inr ⟨_, rfl, fun d hd => List.mem_append_left _ hd⟩
        · intro d hd
          rcases List.mem_append.mp hd with hd | hd
          · exact .inl hd
          · exact .inr ⟨by simpa using hd, .inl hn⟩
    | false =>
      have hopen := hc.punct "[" (by simp) hn
      have hclose := hc.punct "]" (by simp) hn
      have hcomma := hc.punct "," (by simp) hn
      rw [bareOf, if_neg (by simp [hn])] at hb
      cases m with
      | none =>
        rw [Option.isSome_none, Bracketed] at hb
        by_cases ht : c.text = "["
        · rw [if_pos (hopen.mp ht)] at hb
          have hkind : c.kind = .token := by simpa using hb.1.kind
          refine (next (some []) hb.2).step (p := []) ?_ (fun _ => .inl hb.1.children) (by simp)
            (by simp) (by simp)
          rw [scanParts]
          simp [hkind, ht]
        · rw [if_neg (fun he => ht (hopen.mpr he))] at hb
          obtain ⟨parts, hscan, hparts⟩ : ∃ parts, scanParts id none (c :: cs) =
              parts ++ scanParts id none cs ∧ ∀ g, .index g ∉ parts := by
            rw [scanParts]
            simp only [id_eq, if_neg ht]
            split
            · exact ⟨[_], rfl, by simp⟩
            · split
              · split
                · exact ⟨[_], rfl, by simp⟩
                · exact ⟨[], rfl, by simp⟩
              · exact ⟨[], rfl, by simp⟩
          exact (next none hb.2).step hscan (fun _ => .inl hb.1) (by simp) (by simp)
            (fun g hg => absurd hg (hparts g))
      | some group =>
        rw [Option.isSome_some, Bracketed] at hb
        by_cases ht : c.text = "]"
        · rw [if_pos (hclose.mp ht)] at hb
          refine (next none hb.2).step (p := [.index group]) ?_ (fun _ => .inl hb.1.children)
            (by simp) (by simp) (by simp)
          rw [scanParts]
          simp [ht]
        · rw [if_neg (fun he => ht (hclose.mpr he))] at hb
          obtain ⟨hp | ⟨hnamed, hkind, hne⟩, hb⟩ := hb
          · refine (next (some group) hb).step (p := []) ?_ (fun _ => .inl hp.children) (by simp)
              (fun d hd => .inl hd) (by simp)
            have hanon : c.named = false := by simpa using hp.anonymous
            rw [scanParts]
            simp [ht, hanon]
          · refine (next (some (group ++ [c])) hb).step (p := []) ?_ (by simp) ?_ ?_ (by simp)
            · have hnc : c.text ≠ "," := fun he => hne (hcomma.mp he)
              rw [named_bare] at hnamed
              rw [scanParts]
              simp [ht, hnc, hnamed]
            · rintro g0 ⟨⟩
              exact .inr ⟨_, rfl, fun d hd => List.mem_append_left _ hd⟩
            · intro d hd
              rcases List.mem_append.mp hd with hd | hd
              · exact .inl hd
              · exact .inr ⟨by simpa using hd, .inr (by simpa using hkind)⟩

/-! ## The children of an access -/

variable {n : Node}

/-- Comments do not change how the text of a node begins. -/
theorem Sound.head_chars {n : Node} (h : Sound n) (hr : n.kind ≠ .sourceFile) :
    n.chars ≠ [] ∧ n.chars.head? = n.bare.chars.head? := by
  have hlex := h.shape.lexical
  cases hcs : n.children with
  | nil =>
    have hb : n.bare.children = [] := by simp [children_bare, hcs]
    have hw : n.word ≠ "" := by simpa using hlex.word (by simpa using hr) hb
    rw [chars_eq, chars_eq n.bare, hcs, hb, word_bare]
    exact ⟨by simpa [charsOf] using hw, rfl⟩
  | cons c cs =>
    have hc : c ∈ n.children := by simp [hcs]
    have hn : c.isComment = false := h.placed.ends hr c (.inl (by simp [hcs]))
    have hb : n.bare.children = c.bare :: (cs.filter fun c => !c.isComment).map Node.bare := by
      simp [children_bare, hcs, hn]
    have hw : n.word = "" := by simpa using hlex.inner (by simp [hb])
    obtain ⟨hne, hhead⟩ := (h.child hc hn).head_chars (h.notRoot hc hn)
    rw [chars_eq, chars_eq n.bare, hcs, hb, word_bare, hw]
    simp only [charsOf, String.toList_empty, List.nil_append]
    refine ⟨by simp [hne], ?_⟩
    have hne' : c.bare.chars ≠ [] := by
      intro he
      rw [he] at hhead
      simp [hne] at hhead
    rw [List.head?_append_of_ne_nil _ hne, List.head?_append_of_ne_nil _ hne', hhead]
termination_by sizeOf n
decreasing_by exact sizeOf_child hc

theorem Sound.expression_text (h : Sound n) (hk : n.kind ∈ expressionKinds) {w : String}
    (hw : w ∈ ["[", "]", ",", "^"]) : n.text ≠ w ∧ n.bare.text ≠ w := by
  have hr : n.kind ≠ .sourceFile := by
    intro hr
    rw [hr] at hk
    exact absurd hk (by decide)
  have hlex := h.shape.lexical.expression (by simpa using hk)
  have hne (m : Node) (hm : m.chars.head? = n.bare.chars.head?) : m.text ≠ w := by
    rw [Ne, text_eq_iff]
    intro he
    rw [he] at hm
    simp only [List.mem_cons, List.not_mem_nil, or_false] at hw
    rcases hw with rfl | rfl | rfl | rfl
    all_goals exact hlex _ hm.symm (by decide)
  exact ⟨hne n (h.head_chars hr).2, hne n.bare rfl⟩

theorem Sound.leaf_chars {c : Node} (h : Sound n) (hc : c ∈ n.children) (hn : c.isComment = false)
    (hb : c.bare.children = []) : c.children = [] ∧ c.chars = c.bare.chars := by
  have hcl := (h.child hc hn).leaf (h.notRoot hc hn) hb
  exact ⟨hcl, by rw [chars_eq, chars_eq c.bare, hcl, hb, word_bare]⟩

theorem Sound.readsAs (h : Sound n) (hk : n.kind = .variableAccess) {c : Node}
    (hc : c ∈ n.children) : ReadsAs c := by
  refine ⟨fun hn => h.placed.extra c hc hn, fun w hw hn => ?_, fun hname => ?_⟩
  · obtain hq | ⟨r, hr, hs⟩ := h.shape.kids c.bare (Sound.bare_mem hc hn)
    · rw [text, text, (h.leaf_chars hc hn hq).2]
    · rw [kind_bare, hk] at hr
      obtain ⟨k, hkind, rfl⟩ := List.mem_map.mp (show r ∈ expressionKinds.map .children from hr)
      obtain rfl : c.kind = k := by simpa [Role.selects] using hs
      have := (h.child hc hn).expression_text hkind hw
      exact iff_of_false this.1 this.2
  · have hn : c.isComment = false := by
      rcases hname with hname | hname <;> simp [isComment, hname]
    refine ((h.child hc hn).word ?_).1
    rcases hname with hname | hname <;> (rw [hname]; decide)

theorem Sound.accessChild (h : Sound n) {c : Node} (hc : c ∈ n.bare.children) : AccessChild c := by
  obtain ⟨d, hd, hn, rfl⟩ := Sound.of_bare_mem hc
  have hds := h.child hd hn
  refine ⟨fun hname => ?_, fun hk w hw => (hds.expression_text (by simpa using hk) hw).2⟩
  obtain ⟨hleaf, hb⟩ := hds.shape.lexical.name hname
  refine ⟨hleaf, ?_⟩
  rw [chars_eq, hleaf]
  simpa [charsOf] using hb

/-! ## The first walk -/

theorem plainParts_cons (c : Node) (cs : List Node) :
    plainParts (c :: cs) = (if c.kind = .identifier then some (.identifier (lowerIdentifier c))
      else if c.kind = .partialAccess then parsePartialAccess c.chars
      else if c.text = "^" then some .deref else none).toList ++ plainParts cs := by
  simp only [plainParts, List.filterMap_cons]
  split <;> simp_all

theorem plainParts_bare {cs : List Node} (hcs : ∀ c ∈ cs, ReadsAs c) :
    plainParts (bareOf cs) = (plainParts cs).map AccessPart.unranged := by
  induction cs with
  | nil => rfl
  | cons c cs ih =>
    have hc := hcs c List.mem_cons_self
    have ih' := ih fun c h => hcs c (List.mem_cons_of_mem _ h)
    rw [plainParts_cons, List.map_append, ← ih', bareOf]
    cases hn : c.isComment with
    | true =>
      have hk : c.kind ≠ .identifier ∧ c.kind ≠ .partialAccess := by
        constructor <;> (intro hk; simp [isComment, hk] at hn)
      simp [hk, (hc.comment hn).text_ne (w := "^") rfl]
    | false =>
      have hderef := hc.punct "^" (by simp) hn
      rw [if_neg (by simp), plainParts_cons]
      congr 1
      simp only [kind_bare]
      by_cases hident : c.kind = .identifier
      · simp [hident, AccessPart.unranged, lowerIdentifier, Identifier.unranged, text,
          hc.name (.inl hident)]
      · rw [if_neg hident, if_neg hident]
        by_cases hp : c.kind = .partialAccess
        · rw [if_pos hp, if_pos hp, ← hc.name (.inr hp)]
          cases hpp : parsePartialAccess c.chars with
          | none => rfl
          | some p => simp [partialAccess_unranged hpp]
        · rw [if_neg hp, if_neg hp]
          by_cases hd : c.text = "^"
          · simp [hd, hderef.mp hd, AccessPart.unranged]
          · rw [if_neg hd, if_neg fun he => hd (hderef.mpr he)]
            rfl

/-- Without an index the second walk is the first but for the dereferences. -/
theorem scanParts_noIndex {cs : List Node} (g : Node → Expression)
    (hno : ∀ c ∈ cs, c.text ≠ "[") :
    (∀ group, .index group ∉ scanParts id none cs) ∧
    .deref ∉ (scanParts id none cs).map (RawPart.lower g) ∧
    ((∀ c ∈ cs, c.text ≠ "^") →
      (scanParts id none cs).map (RawPart.lower g) = plainParts cs) := by
  induction cs with
  | nil => simp [scanParts, plainParts]
  | cons c cs ih =>
    obtain ⟨h1, h2, h3⟩ := ih fun c h => hno c (List.mem_cons_of_mem _ h)
    have hopen := hno c List.mem_cons_self
    rw [plainParts_cons, scanParts]
    simp only [id_eq, if_neg hopen]
    by_cases hident : c.kind = .identifier
    · simp only [if_pos hident]
      refine ⟨by simpa using h1, by simpa [RawPart.lower] using h2, fun hd => ?_⟩
      simpa [RawPart.lower] using h3 fun c h => hd c (List.mem_cons_of_mem _ h)
    · simp only [if_neg hident]
      by_cases hp : c.kind = .partialAccess
      · simp only [if_pos hp]
        cases hpp : parsePartialAccess c.chars with
        | none => exact ⟨h1, h2, fun hd => by simpa using h3 fun c h => hd c (List.mem_cons_of_mem _ h)⟩
        | some p =>
          have hp' : p ≠ .deref := by
            rintro rfl
            unfold parsePartialAccess at hpp
            split at hpp
            · simp [Option.bind_eq_some_iff] at hpp
            · simp at hpp
          refine ⟨by simpa using h1, by simpa [RawPart.lower, Ne.symm hp'] using h2, fun hd => ?_⟩
          simpa [RawPart.lower] using h3 fun c h => hd c (List.mem_cons_of_mem _ h)
      · simp only [if_neg hp]
        refine ⟨h1, h2, fun hd => ?_⟩
        rw [if_neg (hd c List.mem_cons_self)]
        simpa using h3 fun c h => hd c (List.mem_cons_of_mem _ h)

/-! ## Both walks -/

section

variable [F64Ops]

theorem lowerVariableAccess_eq (n : Node) : lowerVariableAccess n =
    ⟨if n.chars.contains '[' then (scanParts id none n.children).map (RawPart.lower lowerExpression)
      else plainParts n.children, n.range⟩ := by
  have hscan := scanParts_map (fun c : {c : Node // sizeOf c < sizeOf n} => c.1) lowerExpression none
    n.smaller
  rw [smaller_val, Option.map_none] at hscan
  rw [lowerVariableAccess, hscan]
  split <;> rfl

omit [F64Ops] in
theorem mem_chars {x : Char} (hw : n.word = "") :
    x ∈ n.chars ↔ ∃ c ∈ n.children, x ∈ c.chars := by
  rw [chars_eq, hw, charsOf_eq]
  simp

/-- With an index both walks are the second one. -/
theorem indexed_agree (h : Sound n) (hk : n.kind = .variableAccess) (ih : BelowAgree n)
    (hb : Bracketed false (bareOf n.children)) :
    ((scanParts id none n.children).map (RawPart.lower lowerExpression)).map AccessPart.unranged =
        (scanParts id none n.bare.children).map (RawPart.lower lowerExpression) ↔
      (∀ group, .index group ∈ scanParts id none n.children → ∀ c ∈ group, c.isComment = false) ∧
        ∀ c ∈ n.children, Harmless c := by
  have hreads : ∀ c ∈ n.children, ReadsAs c := fun c hc => h.readsAs hk hc
  have hscan := scanParts_bare hreads none
  have hgroups := scanParts_groups hreads none hb
  have hbare : n.bare.children = bareOf n.children := by rw [bareOf_eq, children_bare]
  rw [Option.map_none] at hscan
  rw [hbare, hscan, List.map_map, List.map_map, List.map_inj_left]
  have hmember : ∀ g, .index g ∈ scanParts id none n.children → ∀ c ∈ g, c ∈ n.children ∧
      (c.isComment = false → ((lowerExpression c).unranged = lowerExpression c.bare ↔ Harmless c)) := by
    intro g hg c hc
    obtain hin | ⟨hin, hkind⟩ := hgroups.members g hg c hc
    · simp at hin
    · refine ⟨hin, fun hn => ?_⟩
      have hexpr : c.kind ∈ expressionKinds := hkind.resolve_left (by simp [hn])
      exact ih c (sizeOf_child hin) (h.child hin hn) hexpr
  have hpart : ∀ g, (AccessPart.unranged ∘ RawPart.lower lowerExpression) (.index g) =
      (RawPart.lower lowerExpression ∘ RawPart.bare) (.index g) ↔
        (∀ c ∈ g, c.isComment = false) ∧
          ∀ c ∈ g, (lowerExpression c).unranged = lowerExpression c.bare := by
    intro g
    simp only [Function.comp_apply, RawPart.lower, RawPart.bare, AccessPart.unranged,
      unrangedExpressions_eq, AccessPart.index.injEq]
    exact counted_agree g
  constructor
  · intro hall
    have hno : ∀ g, .index g ∈ scanParts id none n.children → ∀ c ∈ g, c.isComment = false :=
      fun g hg => ((hpart g).mp (hall _ hg)).1
    refine ⟨hno, fun c hc => ?_⟩
    cases hn : c.isComment with
    | true => exact harmless_leaf (h.placed.extra c hc hn).children
    | false =>
      obtain hq | ⟨g, hg, hcg⟩ := hgroups.covered c hc hn
      · exact h.quiet hc hq
      · exact ((hmember g hg c hcg).2 hn).mp (((hpart g).mp (hall _ hg)).2 c hcg)
  · rintro ⟨hno, hall⟩ rp hrp
    cases rp with
    | part p => rfl
    | index g =>
      refine (hpart g).mpr ⟨hno g hrp, fun c hc => ?_⟩
      obtain ⟨hin, hagree⟩ := hmember g hrp c hc
      exact (hagree (hno g hrp c hc)).mpr (hall c hin)

omit [F64Ops] in
/-- The children of an access: an identifier and what follows it. -/
theorem Sound.access (h : Sound n) (hk : n.kind = .variableAccess) :
    n.word = "" ∧ Bracketed false (bareOf n.children) ∧
      ((∀ c ∈ n.bare.children, c.text ≠ "[") →
        ∀ c ∈ n.bare.children, c.children = [] ∧ '[' ∉ c.chars) := by
  have hord := h.shape.ordered
  simp only [Ordered, kind_bare, hk] at hord
  obtain ⟨i, cs, hcs, hi, hsuf⟩ := hord
  have hchild : ∀ c ∈ n.bare.children, AccessChild c := fun c hc => h.accessChild hc
  have hchild' : ∀ c ∈ cs, AccessChild c := fun c hc => hchild c (by simp [hcs, hc])
  have hname := (hchild i (by simp [hcs])).name (.inl hi)
  have hit : i.text ≠ "[" := by
    rw [Ne, text_eq_iff]
    intro he
    exact hname.2.1 (by simp [he])
  refine ⟨by simpa using h.shape.lexical.inner (by simp [hcs]), ?_, fun hno c hc => ?_⟩
  · rw [bareOf_eq, ← children_bare, hcs, Bracketed, if_neg hit]
    exact ⟨hname.1, hsuf.bracketed hchild'⟩
  · rw [hcs] at hc
    rcases List.mem_cons.mp hc with rfl | hc
    · exact ⟨hname.1, hname.2.1⟩
    · exact hsuf.noBracket hchild' (fun c hc => hno c (by simp [hcs, hc])) c hc

omit [F64Ops] in
/-- Punctuation of an access is no comment. -/
theorem Sound.access_punct (h : Sound n) (hk : n.kind = .variableAccess) {c : Node} {w : String}
    (hc : c ∈ n.children) (hw : w ∈ ["[", "]", ",", "^"]) (ht : c.text = w) :
    c.isComment = false ∧ c.bare.text = w := by
  have hn : c.isComment = false := by
    cases hn : c.isComment with
    | false => rfl
    | true =>
      refine absurd ht ((h.placed.extra c hc hn).text_ne ?_)
      revert hw
      simp only [List.mem_cons, List.not_mem_nil, or_false]
      rintro (rfl | rfl | rfl | rfl) <;> rfl
  exact ⟨hn, ((h.readsAs hk hc).punct w hw hn).mp ht⟩

omit [F64Ops] in
theorem Sound.access_open (h : Sound n) (hk : n.kind = .variableAccess) :
    (∃ c ∈ n.children, c.text = "[") ↔ ∃ c ∈ n.bare.children, c.text = "[" := by
  constructor
  · rintro ⟨c, hc, ht⟩
    obtain ⟨hn, hb⟩ := h.access_punct hk hc (by simp) ht
    exact ⟨c.bare, Sound.bare_mem hc hn, hb⟩
  · rintro ⟨c, hc, ht⟩
    obtain ⟨d, hd, hn, rfl⟩ := Sound.of_bare_mem hc
    exact ⟨d, hd, ((h.readsAs hk hd).punct "[" (by simp) hn).mpr ht⟩

omit [F64Ops] in
/-- A dereference is found by the first walk. -/
theorem Sound.access_deref (h : Sound n) (hk : n.kind = .variableAccess) {c : Node}
    (hc : c ∈ n.children) (ht : c.text = "^") : .deref ∈ plainParts n.children := by
  obtain ⟨hn, hb⟩ := h.access_punct hk hc (by simp) ht
  have hac := h.accessChild (Sound.bare_mem hc hn)
  have harrow : '^' ∈ c.bare.chars := by simp [text_eq_iff.mp hb]
  have hkind : c.kind ≠ .identifier ∧ c.kind ≠ .partialAccess := by
    constructor
    · intro hkind
      exact (hac.name (.inl (by simpa using hkind))).2.2 harrow
    · intro hkind
      exact (hac.name (.inr (by simpa using hkind))).2.2 harrow
  exact List.mem_filterMap.mpr ⟨c, hc, by simp [hkind, ht]⟩

/-- Without an index only a comment with a bracket leads to the second walk,
which loses the dereferences. -/
theorem unindexed_agree (h : Sound n) (hk : n.kind = .variableAccess)
    (hno : ∀ c ∈ n.children, c.text ≠ "[") :
    (if n.chars.contains '[' then (scanParts id none n.children).map (RawPart.lower lowerExpression)
        else plainParts n.children).map AccessPart.unranged = plainParts n.bare.children ↔
      ((∃ c ∈ n.children, c.isComment = true ∧ '[' ∈ c.chars) → ∀ c ∈ n.children, c.text ≠ "^") := by
  obtain ⟨hw, -, hleaves⟩ := h.access hk
  have hno0 : ∀ c ∈ n.bare.children, c.text ≠ "[" := by
    have := mt (h.access_open hk).mpr (by simpa using hno)
    simpa using this
  have hin : n.chars.contains '[' = true ↔ ∃ c ∈ n.children, c.isComment = true ∧ '[' ∈ c.chars := by
    rw [List.contains_iff_mem, mem_chars hw]
    constructor
    · rintro ⟨c, hc, hx⟩
      cases hn : c.isComment with
      | true => exact ⟨c, hc, hn, hx⟩
      | false =>
        obtain ⟨hl, hnot⟩ := hleaves hno0 _ (Sound.bare_mem hc hn)
        rw [(h.leaf_chars hc hn hl).2] at hx
        exact absurd hx hnot
    · rintro ⟨c, hc, -, hx⟩
      exact ⟨c, hc, hx⟩
  obtain ⟨-, hderef, hplain⟩ := scanParts_noIndex lowerExpression hno
  rw [children_bare, ← bareOf_eq, plainParts_bare fun c hc => h.readsAs hk hc, ← hin]
  by_cases hc : n.chars.contains '[' = true
  · rw [if_pos hc]
    constructor
    · intro he _ d hd ht
      have hmem := List.mem_map_of_mem (f := AccessPart.unranged) (h.access_deref hk hd ht)
      rw [← he] at hmem
      obtain ⟨p, hp, hpu⟩ := List.mem_map.mp hmem
      cases p with
      | deref => exact hderef hp
      | identifier i => simp [AccessPart.unranged] at hpu
      | index es => simp [AccessPart.unranged] at hpu
      | partialAccess k i => simp [AccessPart.unranged] at hpu
    · intro hd
      rw [hplain (hd hc)]
  · rw [if_neg hc]
    exact iff_of_true rfl fun hc' => absurd hc' hc

theorem access_agree (h : Sound n) (hk : n.kind = .variableAccess) (ih : BelowAgree n) :
    (lowerVariableAccess n).unranged = lowerVariableAccess n.bare ↔ Harmless n := by
  obtain ⟨hw, hb, hleaves⟩ := h.access hk
  have hw0 : n.bare.word = "" := by simpa using hw
  rw [lowerVariableAccess_eq, lowerVariableAccess_eq, VariableAccess.unranged, harmless_iff]
  simp only [VariableAccess.mk.injEq, range_bare, and_true]
  have hat : HarmlessAt n ↔
      (∀ group, .index group ∈ scanParts id none n.children → ∀ c ∈ group, c.isComment = false) ∧
      ((∃ c ∈ n.children, c.isComment = true ∧ '[' ∈ c.chars) →
        (∃ c ∈ n.children, c.text = "[") ∨ ∀ c ∈ n.children, c.text ≠ "^") := by
    simp only [HarmlessAt, hk]
  rw [hat]
  by_cases hindex : ∃ c ∈ n.children, c.text = "["
  · have hin (m : Node) (hmw : m.word = "") (hm : ∃ c ∈ m.children, c.text = "[") :
        m.chars.contains '[' = true := by
      obtain ⟨c, hc, ht⟩ := hm
      exact List.contains_iff_mem.mpr ((mem_chars hmw).mpr ⟨c, hc, by simp [text_eq_iff.mp ht]⟩)
    rw [if_pos (hin n hw hindex), if_pos (hin n.bare hw0 ((h.access_open hk).mp hindex)),
      indexed_agree h hk ih hb]
    exact and_congr_left fun _ => (and_iff_left fun _ => .inl hindex).symm
  · have hno : ∀ c ∈ n.children, c.text ≠ "[" := by simpa using hindex
    have hno0 : ∀ c ∈ n.bare.children, c.text ≠ "[" := by
      have := mt (h.access_open hk).mpr hindex
      simpa using this
    have hharmless : ∀ c ∈ n.children, Harmless c := by
      intro c hc
      cases hn : c.isComment with
      | true => exact harmless_leaf (h.placed.extra c hc hn).children
      | false => exact h.quiet hc (hleaves hno0 _ (Sound.bare_mem hc hn)).1
    have hin0 : ¬ n.bare.chars.contains '[' = true := by
      rw [List.contains_iff_mem, mem_chars hw0]
      rintro ⟨c, hc, hx⟩
      exact (hleaves hno0 c hc).2 hx
    rw [if_neg hin0, unindexed_agree h hk hno]
    simp only [hindex, false_or]
    have hgroup := (scanParts_noIndex lowerExpression hno).1
    exact ⟨fun hd => ⟨⟨fun g hg => absurd hg (hgroup g), hd⟩, hharmless⟩, fun hd => hd.1.2⟩

omit [F64Ops] in
theorem other_expressions : ∀ k ∈ expressionKinds, k ∉ wordKinds → k ∉ binaryKinds →
    k = .typedLiteral ∨ k = .unaryExpression ∨ k = .variableAccess ∨ k = .functionCall ∨
      k = .parenthesizedExpression := by
  decide

/-- **Expressions**: lowering agrees with lowering without comments just when
the comments are harmless. -/
theorem expression_agree {n : Node} (h : Sound n) (hk : n.kind ∈ expressionKinds) :
    (lowerExpression n).unranged = lowerExpression n.bare ↔ Harmless n := by
  have ih : BelowAgree n := fun c _ hc hck => expression_agree hc hck
  by_cases hw : n.kind ∈ wordKinds
  · exact word_agree h hk hw
  by_cases hb : n.kind ∈ binaryKinds
  · exact binary_agree h hb ih
  obtain hk | hk | hk | hk | hk := other_expressions n.kind hk hw hb
  · exact typed_agree h hk
  · exact unary_agree h hk ih
  · rw [← access_agree h hk ih, lowerExpression, lowerExpression]
    simp only [kind_bare, hk, Expression.unranged, unrangedParts_eq, Expression.var.injEq]
    rw [VariableAccess.unranged]
    cases lowerVariableAccess n.bare
    simp
  · rw [← functionCall_agree h hk ih, lowerExpression, lowerExpression]
    simp only [kind_bare, hk, Expression.unranged, unrangedArguments_eq,
      Expression.functionCall.injEq]
    rw [FunctionCallExpr.unranged]
    cases lowerFunctionCall n.bare
    simp
  · exact parenthesized_agree h hk ih
termination_by sizeOf n

end

end RustPlc.Syntax
