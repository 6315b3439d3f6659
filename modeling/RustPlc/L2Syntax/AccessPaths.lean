import Mathlib.Data.List.Forall2
import RustPlc.L1Ir.NumberText
import RustPlc.L2Syntax.CommentsLowered

/-!
# Access paths

`variable_access` of the grammar (crates/st-grammar/grammar.js:605-632) is an
identifier with any accessors behind it: fields, indices, dereferences and
parts. `lower_variable_access` (crates/st-syntax/src/lower.rs:1165-1224) makes
a part of the AST of each; when the text has a bracket, a second walk starts
anew and knows no dereferences. The number of a part is read as a `u32`, and
an accessor whose number does not fit is left out.

Results:
* `Access.reads`: the children of an access are a sequence of accessors;
* `access_complete_iff`: the parts are the accessors, one by one, exactly when
  no dereference stands in a text with a bracket, every part has a number
  below `2^32`, and no comment is in an index;
* `dereference_dropped`: `a[0]^` is lowered to `a[0]`.
-/
namespace RustPlc.Syntax

open RustPlc.Ir Node

/-! ## The accessors of the grammar -/

/-- The letters of a part. -/
def partialLetters : PartialAccessKind → List Char
  | .bit => ['x', 'X']
  | .byte => ['b', 'B']
  | .word => ['w', 'W']
  | .dword => ['d', 'D']
  | .lword => ['l', 'L']

/-- The token of a part: `.%`, a letter and digits.
mirrors crates/st-grammar/grammar.js:622-632 -/
structure PartialWord (p : Node) (kind : PartialAccessKind) (digits : List Char) : Prop where
  partialAccess : p.kind = .partialAccess
  text : ∃ letter ∈ partialLetters kind, p.chars = '.' :: '%' :: letter :: digits
  nonempty : digits ≠ []
  digit : ∀ c ∈ digits, c.isDigit = true

/-- One accessor: the identifier of a field, what stands between the brackets
of an index, a dereference, or a part with its number. -/
inductive Accessor where
  | field (name : Node)
  | index (between : List Node)
  | deref
  | part (kind : PartialAccessKind) (number : Nat)

/-- The accessors behind the identifier of an access, comments in between. -/
inductive Accessors : List Node → List Accessor → Prop
  | nil : Accessors [] []
  | comment {c : Node} {cs : List Node} {as : List Accessor} (hc : c.isComment = true)
      (h : Accessors cs as) : Accessors (c :: cs) as
  | field {d i : Node} {gap cs : List Node} {as : List Accessor} (hd : Punct "." d)
      (hgap : ∀ c ∈ gap, c.isComment = true) (hi : i.kind = .identifier) (h : Accessors cs as) :
    Accessors (d :: (gap ++ i :: cs)) (.field i :: as)
  | deref {d : Node} {cs : List Node} {as : List Accessor} (hd : Punct "^" d)
      (h : Accessors cs as) : Accessors (d :: cs) (.deref :: as)
  | part {p : Node} {kind : PartialAccessKind} {digits : List Char} {cs : List Node}
      {as : List Accessor} (hp : PartialWord p kind digits) (h : Accessors cs as) :
    Accessors (p :: cs) (.part kind (Nat.ofDigitChars 10 digits 0) :: as)
  | index {l r : Node} {es cs : List Node} {as : List Accessor} (hl : Punct "[" l)
      (hes : ∀ e ∈ es, Punct "," e ∨ e.named = true ∧ e.kind ∈ expressionKinds ∨
        e.isComment = true)
      (hr : Punct "]" r) (h : Accessors cs as) :
    Accessors (l :: (es ++ r :: cs)) (.index es :: as)

/-- What the grammar says of the words of an access. -/
structure AccessWord (c : Node) : Prop where
  comment : c.isComment = true → Extra c
  expression : c.kind ∈ expressionKinds → ∀ w ∈ ["[", "]", ",", "^"], c.text ≠ w

/-! ## What the walks make of them -/

theorem partialKind_letter {kind : PartialAccessKind} {letter : Char}
    (h : letter ∈ partialLetters kind) : partialKind letter = some kind := by
  cases kind <;> simp only [partialLetters, List.mem_cons, List.not_mem_nil, or_false] at h <;>
    rcases h with rfl | rfl <;> rfl

/-- A number is read up to 32 bits. -/
theorem parseU32_ofDigits {cs : List Char} (hne : cs ≠ []) (h : ∀ c ∈ cs, c.isDigit = true) :
    parseU32 cs = if Nat.ofDigitChars 10 cs 0 < 2 ^ 32 then
      some (UInt32.ofNat (Nat.ofDigitChars 10 cs 0)) else none := by
  unfold parseU32
  rw [parseU64_ofDigits hne h]
  generalize Nat.ofDigitChars 10 cs 0 = n
  by_cases h64 : n < 2 ^ 64
  · have hn : (UInt64.ofNat n).toNat = n := by
      rw [UInt64.toNat_ofNat']
      exact Nat.mod_eq_of_lt h64
    rw [if_pos h64, Option.bind_some, hn]
  · rw [if_neg h64, if_neg (by omega)]
    rfl

theorem PartialWord.parse {p : Node} {kind : PartialAccessKind} {digits : List Char}
    (h : PartialWord p kind digits) : parsePartialAccess p.chars =
      if Nat.ofDigitChars 10 digits 0 < 2 ^ 32 then
        some (.partialAccess kind (UInt32.ofNat (Nat.ofDigitChars 10 digits 0))) else none := by
  obtain ⟨letter, hl, hc⟩ := h.text
  rw [hc]
  show (parseU32 digits).bind (fun i => (partialKind letter).map _) = _
  rw [parseU32_ofDigits h.nonempty h.digit, partialKind_letter hl]
  by_cases hn : Nat.ofDigitChars 10 digits 0 < 2 ^ 32
  · rw [if_pos hn, if_pos hn]
    rfl
  · rw [if_neg hn, if_neg hn]
    rfl

/-- The part of a number that fits. -/
def partsOf (kind : PartialAccessKind) (number : Nat) : List AccessPart :=
  if number < 2 ^ 32 then [.partialAccess kind (UInt32.ofNat number)] else []

/-- What the first walk makes of an accessor. -/
def plainPart : Accessor → List AccessPart
  | .field i => [.identifier (lowerIdentifier i)]
  | .index _ => []
  | .deref => [.deref]
  | .part kind number => partsOf kind number

/-- What the second walk makes of it. -/
def scannedPart : Accessor → List (RawPart Node)
  | .field i => [.part (.identifier (lowerIdentifier i))]
  | .index es => [.index (es.filter fun e => e.named && e.text ≠ ",")]
  | .deref => []
  | .part kind number => (partsOf kind number).map .part

/-- A node that no walk takes for an accessor. -/
structure Passed (c : Node) : Prop where
  identifier : c.kind ≠ .identifier
  partialAccess : c.kind ≠ .partialAccess

theorem passed_comment {c : Node} (h : c.isComment = true) : Passed c := by
  constructor <;> (intro hk; simp [isComment, hk] at h)

theorem Punct.passed {w : String} {c : Node} (h : Punct w c) : Passed c := by
  constructor <;> (intro hk; rw [h.kind] at hk; cases hk)

theorem scan_passed {c : Node} (h : Passed c) (ht : c.text ≠ "[") (cs : List Node) :
    scanParts id none (c :: cs) = scanParts id none cs := by
  simp only [scanParts, id_eq, if_neg h.identifier, if_neg h.partialAccess, if_neg ht]

theorem scan_gap {gap : List Node} (hgap : ∀ c ∈ gap, c.isComment = true)
    (hw : ∀ c ∈ gap, AccessWord c) (cs : List Node) :
    scanParts id none (gap ++ cs) = scanParts id none cs := by
  induction gap with
  | nil => rfl
  | cons c gap ih =>
    have hc := hgap c List.mem_cons_self
    have hx := (hw c List.mem_cons_self).comment hc
    rw [List.cons_append, scan_passed (passed_comment hc) (hx.text_ne rfl)]
    exact ih (fun d hd => hgap d (List.mem_cons_of_mem c hd))
      fun d hd => hw d (List.mem_cons_of_mem c hd)

/-- The second walk collects the named nodes up to the closing bracket. -/
theorem scan_group {es : List Node} {r : Node} {cs : List Node}
    (hes : ∀ e ∈ es, e.text ≠ "]") (hr : Punct "]" r) (g : List Node) :
    scanParts id (some g) (es ++ r :: cs) =
      .index (g ++ es.filter fun e => e.named && e.text ≠ ",") :: scanParts id none cs := by
  induction es generalizing g with
  | nil =>
    rw [List.nil_append, List.filter_nil, List.append_nil, scanParts]
    exact if_pos hr.text
  | cons e es ih =>
    have hrest := fun g => ih (fun d hd => hes d (List.mem_cons_of_mem e hd)) g
    have hclose : ¬ (id e).text = "]" := hes e List.mem_cons_self
    rw [List.cons_append, scanParts, if_neg hclose]
    simp only [id_eq]
    by_cases hin : (e.named && e.text ≠ ",") = true
    · rw [if_pos hin, hrest, List.filter_cons, if_pos hin, List.append_assoc]
      rfl
    · rw [if_neg hin, hrest, List.filter_cons, if_neg hin]

theorem between_ne {e : Node} (hw : AccessWord e) (he : Punct "," e ∨
    e.named = true ∧ e.kind ∈ expressionKinds ∨ e.isComment = true) : e.text ≠ "]" := by
  rcases he with he | ⟨-, hk⟩ | hc
  · rw [he.text]
    decide
  · exact hw.expression hk "]" (by simp)
  · exact (hw.comment hc).text_ne rfl

/-- The second walk. -/
theorem scan_accessors {cs : List Node} {as : List Accessor} (h : Accessors cs as)
    (hw : ∀ c ∈ cs, AccessWord c) : scanParts id none cs = as.flatMap scannedPart := by
  induction h with
  | nil => rfl
  | @comment c cs as hc _ ih =>
    have hx := (hw c List.mem_cons_self).comment hc
    rw [scan_passed (passed_comment hc) (hx.text_ne rfl)]
    exact ih fun d hd => hw d (List.mem_cons_of_mem c hd)
  | @field d i gap cs as hd hgap hi _ ih =>
    have hdot : d.text ≠ "[" := by
      rw [hd.text]
      decide
    rw [scan_passed hd.passed hdot, scan_gap hgap fun c hc => hw c (by simp [hc]), scanParts,
      if_pos (show (id i).kind = _ from hi), ih fun c hc => hw c (by simp [hc]),
      List.flatMap_cons]
    rfl
  | @deref d cs as hd _ ih =>
    have harrow : d.text ≠ "[" := by
      rw [hd.text]
      decide
    rw [scan_passed hd.passed harrow]
    exact ih fun c hc => hw c (List.mem_cons_of_mem d hc)
  | @part p kind digits cs as hp _ ih =>
    have hrest := ih fun c hc => hw c (List.mem_cons_of_mem p hc)
    have hid : ¬ (id p).kind = .identifier := by
      rw [id_eq, hp.partialAccess]
      decide
    have hopen : ¬ (id p).text = "[" := by
      obtain ⟨letter, -, hc⟩ := hp.text
      rw [id_eq, text_eq_iff, hc]
      simp
    rw [scanParts, if_neg hid, if_neg hopen, if_pos (show (id p).kind = _ from hp.partialAccess),
      id_eq, hp.parse, hrest, List.flatMap_cons]
    unfold scannedPart partsOf
    split <;> rename_i heq <;> split at heq <;> simp_all
  | @index l r es cs as hl hes hr _ ih =>
    have hid : ¬ (id l).kind = .identifier := hl.passed.identifier
    rw [scanParts, if_neg hid, if_pos (show (id l).text = _ from hl.text),
      scan_group (fun e he => between_ne (hw e (by simp [he])) (hes e he)) hr,
      ih fun c hc => hw c (by simp [hc]), List.flatMap_cons]
    rfl

theorem plainParts_append (cs ds : List Node) :
    plainParts (cs ++ ds) = plainParts cs ++ plainParts ds := List.filterMap_append

theorem plain_passed {c : Node} (h : Passed c) (ht : c.text ≠ "^") (cs : List Node) :
    plainParts (c :: cs) = plainParts cs := by
  unfold plainParts
  rw [List.filterMap_cons]
  simp only [if_neg h.identifier, if_neg h.partialAccess, if_neg ht]

theorem plain_gap {gap : List Node} (hgap : ∀ c ∈ gap, c.isComment = true)
    (hw : ∀ c ∈ gap, AccessWord c) : plainParts gap = [] := by
  induction gap with
  | nil => rfl
  | cons c gap ih =>
    have hc := hgap c List.mem_cons_self
    rw [plain_passed (passed_comment hc) (((hw c List.mem_cons_self).comment hc).text_ne rfl)]
    exact ih (fun d hd => hgap d (List.mem_cons_of_mem c hd))
      fun d hd => hw d (List.mem_cons_of_mem c hd)

theorem plain_identifier {i : Node} (hi : i.kind = .identifier) (cs : List Node) :
    plainParts (i :: cs) = .identifier (lowerIdentifier i) :: plainParts cs := by
  unfold plainParts
  rw [List.filterMap_cons]
  simp only [if_pos hi]

/-- The first walk, when there is no index. -/
theorem plain_accessors {cs : List Node} {as : List Accessor} (h : Accessors cs as)
    (hw : ∀ c ∈ cs, AccessWord c) (hno : ∀ es, Accessor.index es ∉ as) :
    plainParts cs = as.flatMap plainPart := by
  induction h with
  | nil => rfl
  | @comment c cs as hc _ ih =>
    have hx := (hw c List.mem_cons_self).comment hc
    rw [plain_passed (passed_comment hc) (hx.text_ne rfl)]
    exact ih (fun d hd => hw d (List.mem_cons_of_mem c hd)) hno
  | @field d i gap cs as hd hgap hi _ ih =>
    have hdot : d.text ≠ "^" := by
      rw [hd.text]
      decide
    rw [plain_passed hd.passed hdot, plainParts_append,
      plain_gap hgap fun c hc => hw c (by simp [hc]), plain_identifier hi,
      ih (fun c hc => hw c (by simp [hc])) (fun es hes => hno es (List.mem_cons_of_mem _ hes))]
    rfl
  | @deref d cs as hd _ ih =>
    have hrest := ih (fun c hc => hw c (List.mem_cons_of_mem d hc))
      fun es hes => hno es (List.mem_cons_of_mem _ hes)
    rw [List.flatMap_cons, ← hrest]
    unfold plainParts
    rw [List.filterMap_cons]
    simp only [if_neg hd.passed.identifier, if_neg hd.passed.partialAccess, if_pos hd.text]
    rfl
  | @part p kind digits cs as hp _ ih =>
    have hrest := ih (fun c hc => hw c (List.mem_cons_of_mem p hc))
      fun es hes => hno es (List.mem_cons_of_mem _ hes)
    have hid : ¬ p.kind = .identifier := by
      rw [hp.partialAccess]
      decide
    rw [List.flatMap_cons, ← hrest]
    unfold plainParts
    rw [List.filterMap_cons]
    simp only [if_neg hid, if_pos hp.partialAccess, hp.parse]
    unfold plainPart partsOf
    split <;> rename_i heq <;> split at heq <;> simp_all
  | @index l r es cs as _ _ _ _ _ => exact absurd List.mem_cons_self (hno es)

/-- An index opens a bracket. -/
theorem index_opens {cs : List Node} {as : List Accessor} (h : Accessors cs as)
    {es : List Node} (hes : Accessor.index es ∈ as) : ∃ c ∈ cs, c.text = "[" := by
  induction h with
  | nil => exact absurd hes List.not_mem_nil
  | comment _ _ ih =>
    obtain ⟨c, hc, ht⟩ := ih hes
    exact ⟨c, List.mem_cons_of_mem _ hc, ht⟩
  | field _ _ _ _ ih =>
    obtain ⟨c, hc, ht⟩ := ih (by simpa using hes)
    exact ⟨c, by simp [hc], ht⟩
  | deref _ _ ih =>
    obtain ⟨c, hc, ht⟩ := ih (by simpa using hes)
    exact ⟨c, List.mem_cons_of_mem _ hc, ht⟩
  | part _ _ ih =>
    obtain ⟨c, hc, ht⟩ := ih (by simpa using hes)
    exact ⟨c, List.mem_cons_of_mem _ hc, ht⟩
  | index hl _ _ _ _ => exact ⟨_, List.mem_cons_self, hl.text⟩

/-! ## The accessors of a node -/

theorem bareOf_append_inv {cs as bs : List Node} (h : bareOf cs = as ++ bs) :
    ∃ xs ys, cs = xs ++ ys ∧ bareOf xs = as ∧ bareOf ys = bs := by
  rw [bareOf_eq] at h
  obtain ⟨xs', ys', hf, rfl, rfl⟩ := List.map_eq_append_iff.mp h
  obtain ⟨xs, ys, rfl, rfl, rfl⟩ := List.filter_eq_append_iff.mp hf
  exact ⟨xs, ys, rfl, bareOf_eq xs, bareOf_eq ys⟩

/-- In front of the first node that counts there are comments. -/
theorem bareOf_cons_inv {x : Node} {bs : List Node} : ∀ {cs : List Node}, bareOf cs = x :: bs →
    ∃ gap c ds, cs = gap ++ c :: ds ∧ (∀ g ∈ gap, g.isComment = true) ∧ c.isComment = false ∧
      c.bare = x ∧ bareOf ds = bs
  | [], h => by cases h
  | c :: cs, h => by
    cases hc : c.isComment with
    | true =>
      rw [bareOf, if_pos hc] at h
      obtain ⟨gap, d, ds, rfl, hgap, hd, hx, hds⟩ := bareOf_cons_inv h
      exact ⟨c :: gap, d, ds, rfl, by simpa [hc] using hgap, hd, hx, hds⟩
    | false =>
      rw [bareOf, if_neg (by simp [hc])] at h
      obtain ⟨hx, hds⟩ := List.cons.inj h
      exact ⟨[], c, cs, rfl, by simp, hc, hx, hds⟩

theorem bareOf_nil_inv {cs : List Node} (h : bareOf cs = []) : ∀ c ∈ cs, c.isComment = true := by
  intro c hc
  rw [bareOf_eq, List.map_eq_nil_iff, List.filter_eq_nil_iff] at h
  simpa using h c hc

theorem Accessors.behind {gap cs : List Node} {as : List Accessor}
    (hgap : ∀ c ∈ gap, c.isComment = true) (h : Accessors cs as) : Accessors (gap ++ cs) as := by
  induction gap with
  | nil => exact h
  | cons c gap ih =>
    exact .comment (hgap c List.mem_cons_self) (ih fun d hd => hgap d (List.mem_cons_of_mem c hd))

/-- A node among siblings that is nothing but its own word. -/
def Whole (c : Node) : Prop := c.isComment = false → c.bare.children = [] → c.children = []

theorem Punct.of_bare {w : String} {c : Node} (hw : Whole c) (hc : c.isComment = false)
    (h : Punct w c.bare) : Punct w c :=
  ⟨by simpa using h.kind, by simpa using h.anonymous, by simpa using h.word, hw hc h.children⟩

/-- The siblings behind the identifier, read with their comments. -/
theorem Suffixes.accessors {bs : List Node} (h : Suffixes bs) : ∀ {cs : List Node},
    bareOf cs = bs → (∀ c ∈ cs, Whole c) →
    (∀ p ∈ cs, p.kind = .partialAccess → ∃ kind digits, PartialWord p kind digits) →
    ∃ as, Accessors cs as := by
  induction h with
  | nil =>
    intro cs hb _ _
    have hall := Accessors.behind (bareOf_nil_inv hb) .nil
    rw [List.append_nil] at hall
    exact ⟨[], hall⟩
  | @dot d0 i0 bs hd hi _ ih =>
    intro cs hb hw hp
    obtain ⟨gap, d, ds, rfl, hgap, hdc, rfl, hds⟩ := bareOf_cons_inv hb
    obtain ⟨gap', i, is, rfl, hgap', hic, rfl, his⟩ := bareOf_cons_inv hds
    obtain ⟨as, has⟩ := ih his (fun c hc => hw c (by simp [hc])) fun p hpc => hp p (by simp [hpc])
    have hdot := Punct.of_bare (hw d (by simp)) hdc hd
    exact ⟨_, .behind hgap (.field hdot hgap' (by simpa using hi) has)⟩
  | @deref d0 bs hd _ ih =>
    intro cs hb hw hp
    obtain ⟨gap, d, ds, rfl, hgap, hdc, rfl, hds⟩ := bareOf_cons_inv hb
    obtain ⟨as, has⟩ := ih hds (fun c hc => hw c (by simp [hc])) fun p hpc => hp p (by simp [hpc])
    exact ⟨_, .behind hgap (.deref (Punct.of_bare (hw d (by simp)) hdc hd) has)⟩
  | @partialAccess p0 bs hk _ ih =>
    intro cs hb hw hp
    obtain ⟨gap, p, ps, rfl, hgap, -, rfl, hps⟩ := bareOf_cons_inv hb
    obtain ⟨as, has⟩ := ih hps (fun c hc => hw c (by simp [hc])) fun p hpc => hp p (by simp [hpc])
    obtain ⟨kind, digits, hword⟩ := hp p (by simp) (by simpa using hk)
    exact ⟨_, .behind hgap (.part hword has)⟩
  | @index l0 r0 es0 bs hl hes hr _ ih =>
    intro cs hb hw hp
    rw [List.cons_append] at hb
    obtain ⟨gap, l, ls, rfl, hgap, hlc, rfl, hls⟩ := bareOf_cons_inv hb
    obtain ⟨es, rs, rfl, hbe, hrs⟩ := bareOf_append_inv hls
    obtain ⟨gap', r, ts, rfl, hgap', hrc, rfl, hts⟩ := bareOf_cons_inv hrs
    obtain ⟨as, has⟩ := ih hts (fun c hc => hw c (by simp [hc])) fun p hpc => hp p (by simp [hpc])
    have hopen := Punct.of_bare (hw l (by simp)) hlc hl
    have hclose := Punct.of_bare (hw r (by simp)) hrc hr
    have hbetween : ∀ e ∈ es ++ gap', Punct "," e ∨ e.named = true ∧ e.kind ∈ expressionKinds ∨
        e.isComment = true := by
      intro e he
      rcases List.mem_append.mp he with he | he
      · cases hec : e.isComment with
        | true => exact .inr (.inr rfl)
        | false =>
          have hmem : e.bare ∈ es0 := by
            rw [← hbe, bareOf_eq]
            exact List.mem_map_of_mem (List.mem_filter.mpr ⟨he, by simp [hec]⟩)
          rcases hes _ hmem with hcomma | ⟨hn, hk⟩
          · exact .inl (Punct.of_bare (hw e (by simp [he])) hec hcomma)
          · exact .inr (.inl ⟨by simpa using hn, by simpa using hk⟩)
      · exact .inr (.inr (hgap' e he))
    have hall := Accessors.behind hgap (.index hopen hbetween hclose has)
    rw [List.append_assoc] at hall
    exact ⟨_, hall⟩

/-- An access of a text without errors. -/
structure Access (n : Node) : Prop where
  sound : Sound n
  kind : n.kind = .variableAccess
  parts : ∀ p ∈ n.children, p.kind = .partialAccess → ∃ kind digits, PartialWord p kind digits

theorem comment_kind {c : Node} (h : c.isComment = true) : c.kind ∉ expressionKinds := by
  have hcom : ∀ k ∈ expressionKinds, (k == .lineComment || k == .blockComment) = false := by decide
  intro hk
  rw [isComment, hcom c.kind hk] at h
  cases h

theorem Access.words {n : Node} (h : Access n) {c : Node} (hc : c ∈ n.children) : AccessWord c := by
  refine ⟨h.sound.placed.extra c hc, fun hk w hw => ?_⟩
  have hn : c.isComment = false := by
    cases hn : c.isComment with
    | false => rfl
    | true => exact absurd hk (comment_kind hn)
  exact ((h.sound.child hc hn).expression_text hk hw).1

/-- The identifier of an access and the accessors behind it. -/
def Reads (n : Node) (as : List Accessor) : Prop :=
  ∃ i cs rest, n.children = i :: cs ∧ i.kind = .identifier ∧ Accessors cs rest ∧
    as = .field i :: rest

theorem Access.reads {n : Node} (h : Access n) : ∃ as, Reads n as := by
  have hord := h.sound.shape.ordered
  simp only [Ordered, kind_bare, h.kind] at hord
  obtain ⟨i0, bs, hb, hi, hsuf⟩ := hord
  rw [children_bare, ← bareOf_eq] at hb
  obtain ⟨gap, i, cs, hcs, hgap, -, rfl, hbs⟩ := bareOf_cons_inv hb
  -- no comment stands before the identifier
  have hnil : gap = [] := by
    cases gap with
    | nil => rfl
    | cons g gap =>
      have hfirst := h.sound.placed.ends (by rw [h.kind]; decide) g (.inl (by simp [hcs]))
      rw [hgap g List.mem_cons_self] at hfirst
      cases hfirst
  subst hnil
  have hwhole : ∀ c ∈ cs, Whole c := fun c hc hn hbc =>
    (h.sound.leaf_chars (by simp [hcs, hc]) hn hbc).1
  obtain ⟨as, has⟩ := hsuf.accessors hbs hwhole fun p hp => h.parts p (by simp [hcs, hp])
  exact ⟨_, i, cs, as, hcs, by simpa using hi, has, rfl⟩

/-! ## One part for each accessor -/

/-- One element is made of each, in the order given. -/
theorem forall₂_flatMap {α β : Type} {R : α → β → Prop} {f : α → List β}
    (hf : ∀ a, (f a).length ≤ 1) (as : List α) :
    List.Forall₂ R as (as.flatMap f) ↔ ∀ a ∈ as, ∃ b, f a = [b] ∧ R a b := by
  have hshort (as : List α) : (as.flatMap f).length ≤ as.length := by
    induction as with
    | nil => simp
    | cons a as ih =>
      have ha := hf a
      simp only [List.flatMap_cons, List.length_append, List.length_cons]
      omega
  induction as with
  | nil => simp
  | cons a as ih =>
    simp only [List.flatMap_cons, List.forall_mem_cons, ← ih]
    have ha := hf a
    rcases hfa : f a with _ | ⟨b, _ | ⟨c, rest⟩⟩
    · -- too few are left for the others
      have hlen := hshort as
      have hno : ¬ List.Forall₂ R (a :: as) ([] ++ as.flatMap f) := by
        intro h
        have heq := h.length_eq
        simp only [List.length_cons, List.nil_append] at heq
        omega
      exact iff_of_false hno (by simp)
    · rw [List.singleton_append, List.forall₂_cons]
      simp
    · rw [hfa] at ha
      simp only [List.length_cons] at ha
      omega

section

variable [F64Ops]

/-- The part that stands for an accessor: the name of the field, the
expressions of the index, the letter and the number of the part. -/
inductive Renders : Accessor → AccessPart → Prop
  | field {i : Node} {name : Identifier} (h : name.name = i.text) :
    Renders (.field i) (.identifier name)
  | index {es : List Node} :
    Renders (.index es) (.index ((es.filter (·.kind ∈ expressionKinds)).map lowerExpression))
  | deref : Renders .deref .deref
  | part {kind : PartialAccessKind} {number : Nat} {i : UInt32} (h : i.toNat = number) :
    Renders (.part kind number) (.partialAccess kind i)

omit [F64Ops] in
theorem partsOf_short (kind : PartialAccessKind) (number : Nat) :
    (partsOf kind number).length ≤ 1 := by
  unfold partsOf
  split <;> simp

omit [F64Ops] in
theorem plainPart_short (a : Accessor) : (plainPart a).length ≤ 1 := by
  cases a with
  | part kind number => exact partsOf_short kind number
  | field i => simp [plainPart]
  | index es => simp [plainPart]
  | deref => simp [plainPart]

omit [F64Ops] in
theorem scannedPart_short (a : Accessor) : (scannedPart a).length ≤ 1 := by
  cases a with
  | part kind number =>
    rw [scannedPart, List.length_map]
    exact partsOf_short kind number
  | field i => simp [scannedPart]
  | index es => simp [scannedPart]
  | deref => simp [scannedPart]

/-- The number of a part is there when it fits. -/
theorem renders_partsOf {kind : PartialAccessKind} {number : Nat} :
    (∃ p, partsOf kind number = [p] ∧ Renders (.part kind number) p) ↔ number < 2 ^ 32 := by
  unfold partsOf
  by_cases hn : number < 2 ^ 32
  · refine iff_of_true ⟨_, if_pos hn, .part ?_⟩ hn
    rw [UInt32.toNat_ofNat']
    exact Nat.mod_eq_of_lt hn
  · refine iff_of_false ?_ hn
    rintro ⟨p, hp, -⟩
    rw [if_neg hn] at hp
    cases hp

theorem index_inv {es : List Node} {xs : List Expression} (h : Renders (.index es) (.index xs)) :
    xs = (es.filter (·.kind ∈ expressionKinds)).map lowerExpression := by
  cases h
  rfl

/-- IndexPart the brackets all named nodes are taken, comments too. -/
theorem renders_index {es : List Node} (hw : ∀ e ∈ es, AccessWord e)
    (hes : ∀ e ∈ es, Punct "," e ∨ e.named = true ∧ e.kind ∈ expressionKinds ∨
      e.isComment = true) :
    Renders (.index es)
        (.index ((es.filter fun e => e.named && e.text ≠ ",").map lowerExpression)) ↔
      ∀ e ∈ es, e.isComment = false := by
  have hin : ∀ e ∈ es, e.isComment = false →
      (e.named && e.text ≠ ",") = decide (e.kind ∈ expressionKinds) := by
    intro e he hn
    rcases hes e he with hc | ⟨hnamed, hk⟩ | hc
    · have hk : e.kind ∉ expressionKinds := by
        rw [hc.kind]
        decide
      simp [hc.anonymous, hk]
    · have ht := (hw e he).expression hk "," (by simp)
      simp [hnamed, hk, ht]
    · rw [hn] at hc
      cases hc
  constructor
  · intro h e he
    cases hn : e.isComment with
    | false => rfl
    | true =>
      -- no expression is left out, so this comment is one too many
      have hx := (hw e he).comment hn
      have htaken : e ∈ es.filter fun e => e.named && e.text ≠ "," := by
        simp [he, hx.named, hx.text_ne (w := ",") rfl]
      have hsub : es.filter (·.kind ∈ expressionKinds) =
          (es.filter fun e => e.named && e.text ≠ ",").filter (·.kind ∈ expressionKinds) := by
        rw [List.filter_filter]
        refine List.filter_congr fun d hd => ?_
        cases hd' : d.isComment with
        | false => rw [hin d hd hd', Bool.and_self]
        | true => simp [comment_kind hd']
      have hlen := congrArg List.length (index_inv h)
      rw [List.length_map, List.length_map, hsub] at hlen
      have hall := List.length_filter_eq_length_iff.mp hlen.symm
      have hk := hall e htaken
      simp [comment_kind hn] at hk
  · intro h
    have heq : es.filter (fun e => e.named && e.text ≠ ",") =
        es.filter (·.kind ∈ expressionKinds) := List.filter_congr fun e he => hin e he (h e he)
    rw [heq]
    exact .index

/-- What is between the brackets of an index. -/
structure IndexPart (e : Node) : Prop where
  word : AccessWord e
  grammar : Punct "," e ∨ e.named = true ∧ e.kind ∈ expressionKinds ∨ e.isComment = true

omit [F64Ops] in
theorem Accessors.between {cs : List Node} {as : List Accessor} (h : Accessors cs as)
    (hw : ∀ c ∈ cs, AccessWord c) {es : List Node} (hes : .index es ∈ as) :
    ∀ e ∈ es, IndexPart e := by
  induction h with
  | nil => exact absurd hes List.not_mem_nil
  | comment _ _ ih => exact ih (fun c hc => hw c (List.mem_cons_of_mem _ hc)) hes
  | field _ _ _ _ ih => exact ih (fun c hc => hw c (by simp [hc])) (by simpa using hes)
  | deref _ _ ih => exact ih (fun c hc => hw c (by simp [hc])) (by simpa using hes)
  | part _ _ ih => exact ih (fun c hc => hw c (by simp [hc])) (by simpa using hes)
  | @index l r es' cs as _ hes' _ _ ih =>
    simp only [List.mem_cons, Accessor.index.injEq] at hes
    rcases hes with rfl | hes
    · exact fun e he => ⟨hw e (by simp [he]), hes' e he⟩
    · exact ih (fun c hc => hw c (by simp [hc])) hes

/-- What the first walk makes of an accessor that is no index. -/
theorem renders_plain (a : Accessor) (hno : ∀ es, a ≠ .index es) :
    (∃ p, plainPart a = [p] ∧ Renders a p) ↔
      ∀ kind number, a = .part kind number → number < 2 ^ 32 := by
  cases a with
  | field i => exact iff_of_true ⟨_, rfl, .field rfl⟩ (by simp)
  | index es => exact absurd rfl (hno es)
  | deref => exact iff_of_true ⟨_, rfl, .deref⟩ (by simp)
  | part kind number =>
    rw [plainPart, renders_partsOf]
    simp

/-- What the second makes of it: there is no dereference. -/
theorem renders_scanned (a : Accessor) (hb : ∀ es, a = .index es → ∀ e ∈ es, IndexPart e) :
    (∃ p, (scannedPart a).map (RawPart.lower lowerExpression) = [p] ∧ Renders a p) ↔
      a ≠ .deref ∧ (∀ kind number, a = .part kind number → number < 2 ^ 32) ∧
        ∀ es, a = .index es → ∀ e ∈ es, e.isComment = false := by
  cases a with
  | field i => exact iff_of_true ⟨_, rfl, .field rfl⟩ (by simp)
  | deref => exact iff_of_false (by simp [scannedPart]) (by simp)
  | index es =>
    have hall := hb es rfl
    have hes := renders_index (fun e he => (hall e he).word) fun e he => (hall e he).grammar
    simp only [scannedPart, List.map_cons, List.map_nil, RawPart.lower, List.cons.injEq, and_true,
      exists_eq_left', hes]
    simp
  | part kind number =>
    have hmap : ((partsOf kind number).map RawPart.part).map (RawPart.lower lowerExpression) =
        partsOf kind number := by
      rw [List.map_map]
      exact List.map_id _
    rw [scannedPart, hmap, renders_partsOf]
    simp

/-- **Access paths**: the parts of an access are its accessors one by one, in
their order, exactly when no dereference stands in a text with a bracket,
every part has a number of 32 bits and no comment is in an index. -/
theorem access_complete_iff {n : Node} (h : Access n) : (∃ as, Reads n as) ∧
    ∀ as, Reads n as → (List.Forall₂ Renders as (lowerVariableAccess n).parts ↔
      ('[' ∈ n.chars → .deref ∉ as) ∧ (∀ kind number, .part kind number ∈ as → number < 2 ^ 32) ∧
        ∀ es, .index es ∈ as → ∀ e ∈ es, e.isComment = false) := by
  refine ⟨h.reads, ?_⟩
  rintro as ⟨i, cs, rest, hcs, hi, hrest, rfl⟩
  have hw : ∀ c ∈ cs, AccessWord c := fun c hc => h.words (by simp [hcs, hc])
  have hword : n.word = "" := (h.sound.access h.kind).1
  rw [lowerVariableAccess_eq]
  by_cases hopen : '[' ∈ n.chars
  · have hparts : (scanParts id none n.children).map (RawPart.lower lowerExpression) =
        (Accessor.field i :: rest).flatMap fun a =>
          (scannedPart a).map (RawPart.lower lowerExpression) := by
      rw [hcs, scanParts, if_pos (show (id i).kind = _ from hi), scan_accessors hrest hw,
        ← List.map_flatMap]
      rfl
    have hshort (a : Accessor) :
        ((scannedPart a).map (RawPart.lower lowerExpression)).length ≤ 1 := by
      rw [List.length_map]
      exact scannedPart_short a
    rw [if_pos (List.contains_iff_mem.mpr hopen), hparts, forall₂_flatMap hshort]
    have hbetween : ∀ a ∈ Accessor.field i :: rest, ∀ es, a = .index es → ∀ e ∈ es, IndexPart e := by
      rintro a ha es rfl
      exact hrest.between hw (by simpa using ha)
    constructor
    · intro hall
      have hone := fun a ha => (renders_scanned a (hbetween a ha)).mp (hall a ha)
      exact ⟨fun _ hd => (hone _ hd).1 rfl, fun kind number ha => (hone _ ha).2.1 kind number rfl,
        fun es ha => (hone _ ha).2.2 es rfl⟩
    · rintro ⟨hderef, hnumber, hcomment⟩ a ha
      refine (renders_scanned a (hbetween a ha)).mpr ⟨?_, ?_, ?_⟩
      · rintro rfl
        exact hderef hopen ha
      · rintro kind number rfl
        exact hnumber kind number ha
      · rintro es rfl
        exact hcomment es ha
  · have hno : ∀ es, Accessor.index es ∉ Accessor.field i :: rest := by
      intro es hes
      obtain ⟨c, hc, ht⟩ := index_opens hrest (by simpa using hes)
      exact hopen ((mem_chars hword).mpr ⟨c, by simp [hcs, hc], by simp [text_eq_iff.mp ht]⟩)
    have hparts : plainParts n.children = (Accessor.field i :: rest).flatMap plainPart := by
      rw [hcs, plain_identifier hi, plain_accessors hrest hw fun es hes =>
        hno es (List.mem_cons_of_mem _ hes)]
      rfl
    have hplain : ∀ a ∈ Accessor.field i :: rest, ∀ es, a ≠ .index es := by
      rintro a ha es rfl
      exact hno es ha
    rw [if_neg (by simpa using hopen), hparts, forall₂_flatMap plainPart_short]
    constructor
    · intro hall
      exact ⟨fun ho => absurd ho hopen, fun kind number ha =>
        (renders_plain _ (hplain _ ha)).mp (hall _ ha) kind number rfl,
        fun es hes => absurd hes (hno es)⟩
    · rintro ⟨-, hnumber, -⟩ a ha
      refine (renders_plain a (hplain a ha)).mpr ?_
      rintro kind number rfl
      exact hnumber kind number ha

end

/-! ## The element of an array and what follows it -/

/-- `a[0]` and the words behind it. -/
def element (behind : List Node) : Node :=
  .mk .variableAccess true none noRange "" (leaf .identifier true none "a" :: keyword "[" ::
    leaf .integerLiteral true none "0" :: keyword "]" :: behind)

/-- The words of `.b`. -/
def fieldWords : List Node := [keyword ".", leaf .identifier true none "b"]

/-- The word of a dereference. -/
def derefWords : List Node := [keyword "^"]

theorem arrow_parsed : Parsed (keyword "^") := by
  have hnone : (keyword "^").children = [] := rfl
  refine parsed_iff.mpr ⟨⟨?_, ?_, ?_, ?_, ?_, ?_, ⟨?_, ?_, ?_, ?_⟩⟩, by simp [hnone]⟩
  all_goals
    simp [keyword, leaf, children, kind, roles, Ordered, word, expressionKinds, literalKinds,
      binaryKinds]

theorem bracket_parsed {w : String} (hw : w = "[" ∨ w = "]") : Parsed (keyword w) := by
  have hnone : (keyword w).children = [] := rfl
  refine parsed_iff.mpr ⟨⟨?_, ?_, ?_, ?_, ?_, ?_, ⟨?_, ?_, ?_, ?_⟩⟩, by simp [hnone]⟩
  all_goals
    rcases hw with rfl | rfl <;>
      simp [keyword, leaf, children, kind, roles, Ordered, word, expressionKinds, literalKinds,
        binaryKinds]

/-- A word of an example. -/
structure ExampleWord (d : Node) : Prop where
  kind : d.kind = .token ∨ d.kind = .identifier ∨ d.kind = .integerLiteral
  children : d.children = []
  bare : d.bare = d
  parsed : Parsed d
  commented : Commented d

theorem example_name {w : String} (hw : w = "a" ∨ w = "b") :
    ExampleWord (leaf .identifier true none w) := by
  refine ⟨.inr (.inl rfl), rfl, rfl, leaf_parsed (.inr (.inl rfl)) ?_ ?_ ?_, leaf_commented⟩
  all_goals rcases hw with rfl | rfl <;> simp

theorem element_access {behind : List Node} (hs : Suffixes behind)
    (hb : ∀ d ∈ behind, ExampleWord d) : Access (element behind) := by
  have hindex : ExampleWord (leaf .integerLiteral true none "0") :=
    ⟨.inr (.inr rfl), rfl, rfl, leaf_parsed (.inr (.inr rfl)) (by decide) (by decide) (by simp),
      leaf_commented⟩
  have hopen : ExampleWord (keyword "[") :=
    ⟨.inl rfl, rfl, rfl, bracket_parsed (.inl rfl), leaf_commented⟩
  have hclose : ExampleWord (keyword "]") :=
    ⟨.inl rfl, rfl, rfl, bracket_parsed (.inr rfl), leaf_commented⟩
  have hall : ∀ d ∈ (element behind).children, ExampleWord d := by
    simp only [element, children, List.forall_mem_cons]
    exact ⟨example_name (.inl rfl), hopen, hindex, hclose, hb⟩
  have hcom : ∀ d ∈ (element behind).children, d.isComment = false := by
    intro d hd
    rcases (hall d hd).kind with hk | hk | hk <;> simp [isComment, hk]
  have hbare : bareOf (element behind).children = (element behind).children := by
    rw [bareOf_eq, List.filter_eq_self.mpr fun d hd => by simp [hcom d hd]]
    exact (List.map_congr_left fun d hd => (hall d hd).bare).trans (List.map_id _)
  have hself : (element behind).bare = element behind :=
    congrArg (Node.mk .variableAccess true none noRange "") hbare
  have hshape : Shape (element behind) := by
    refine ⟨fun c hc => .inl (hall c hc).children, ?_, ?_, ?_, ?_, ?_, ⟨?_, ?_, ?_, ?_⟩⟩
    · intro r hr c _ hsel
      obtain ⟨k, hk, rfl⟩ := List.mem_map.mp (show r ∈ expressionKinds.map .children from hr)
      simpa [Role.kinds, Role.selects] using hsel
    · intro r hr hsingle
      obtain ⟨k, hk, rfl⟩ := List.mem_map.mp (show r ∈ expressionKinds.map .children from hr)
      cases hsingle
    · intro hk
      exact absurd (show Kind.variableAccess ∈ wordKinds from hk) (by decide)
    · intro c hc
      rcases (hall c hc).kind with hk | hk | hk <;> simp [hk]
    · have hsuf : Suffixes (keyword "[" :: [leaf .integerLiteral true none "0"] ++
          keyword "]" :: behind) :=
        .index ⟨rfl, rfl, rfl, rfl⟩ (by simp [leaf, named, kind, expressionKinds, literalKinds])
          ⟨rfl, rfl, rfl, rfl⟩ hs
      exact ⟨_, _, rfl, rfl, hsuf⟩
    · simp [element, children]
    · simp [element, word]
    · simp [element, kind]
    · intro _ c hc
      obtain rfl : 'a' = c := by simpa [element, chars, charsOf, leaf] using hc
      decide
  refine ⟨⟨commented_plain fun c hc => ⟨hcom c hc, (hall c hc).commented⟩, ?_⟩, rfl, ?_⟩
  · rw [hself]
    exact parsed_iff.mpr ⟨hshape, fun c hc => (hall c hc).parsed⟩
  · intro p hp hpart
    rcases (hall p hp).kind with hk | hk | hk <;> cases hk.symm.trans hpart

theorem fieldWords_access : Access (element fieldWords) := by
  refine element_access (.dot ⟨rfl, rfl, rfl, rfl⟩ rfl .nil) ?_
  simp only [fieldWords, List.forall_mem_cons, List.not_mem_nil, false_imp_iff, implies_true,
    and_true]
  exact ⟨⟨.inl rfl, rfl, rfl, keyword_parsed (by decide) (by decide) none, leaf_commented⟩,
    example_name (.inr rfl)⟩

theorem derefWords_access : Access (element derefWords) := by
  refine element_access (.deref ⟨rfl, rfl, rfl, rfl⟩ .nil) ?_
  simp only [derefWords, List.forall_mem_cons, List.not_mem_nil, false_imp_iff, implies_true,
    and_true]
  exact ⟨.inl rfl, rfl, rfl, arrow_parsed, leaf_commented⟩

theorem element_reads {behind : List Node} {as : List Accessor} (h : Accessors behind as) :
    Reads (element behind) (.field (leaf .identifier true none "a") ::
      .index [leaf .integerLiteral true none "0"] :: as) := by
  have hindex : Accessors (keyword "[" :: ([leaf .integerLiteral true none "0"] ++
      keyword "]" :: behind)) (.index [leaf .integerLiteral true none "0"] :: as) :=
    .index ⟨rfl, rfl, rfl, rfl⟩ (by simp [leaf, named, kind, expressionKinds, literalKinds])
      ⟨rfl, rfl, rfl, rfl⟩ h
  exact ⟨_, _, _, rfl, rfl, hindex, rfl⟩

theorem fieldWords_accessors :
    Accessors fieldWords [.field (leaf .identifier true none "b")] := by
  have hfield : Accessors (keyword "." :: ([] ++ leaf .identifier true none "b" :: []))
      [.field (leaf .identifier true none "b")] :=
    .field ⟨rfl, rfl, rfl, rfl⟩ (by simp) rfl .nil
  exact hfield

/-- All of `a[0].b` is lowered. -/
theorem field_kept : List.Forall₂ (@Renders default)
    [.field (leaf .identifier true none "a"), .index [leaf .integerLiteral true none "0"],
      .field (leaf .identifier true none "b")]
    (@lowerVariableAccess default (element fieldWords)).parts := by
  refine ((@access_complete_iff default _ fieldWords_access).2 _
    (element_reads fieldWords_accessors)).mpr ?_
  simp [leaf, isComment, kind]

/-- The dereference of `a[0]^` is not. -/
theorem dereference_dropped : ∃ n as, Access n ∧ Reads n as ∧
    ¬ List.Forall₂ (@Renders default) as (@lowerVariableAccess default n).parts := by
  refine ⟨_, _, derefWords_access, element_reads (.deref ⟨rfl, rfl, rfl, rfl⟩ .nil), fun h => ?_⟩
  have hlen := h.length_eq
  rw [@lowerVariableAccess_eq default] at hlen
  revert hlen
  decide

end RustPlc.Syntax
