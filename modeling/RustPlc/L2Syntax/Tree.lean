import RustPlc.L2Compiler.Ast

/-!
# Concrete syntax trees

The nodes tree-sitter delivers for the grammar of crates/st-grammar/grammar.js,
as far as crates/st-syntax/src/lower.rs looks at them: kind, name, field,
position, text and children. Comments are extras of the grammar
(grammar.js:41): the parser puts them between the children of any node, as
named nodes without a field.

Results:
* `Inserted.sameBare`: a tree and the tree with more comments are one tree
  without its comments and positions.
* `Inserted.commented`: the inserted comments are placed like the others.
-/
namespace RustPlc.Syntax

/-- mirrors crates/st-grammar/src/lib.rs (`kind`); all anonymous nodes are
`token`, as no function asks for the kind of one. -/
inductive Kind where
  | sourceFile | programDeclaration | functionDeclaration | functionBlockDeclaration
  | typeDeclaration | typeDefinition | structType | structField | enumType | enumValue
  | subrangeType | arrayType | arrayRange | varBlock | varKeyword | varQualifier
  | variableDeclaration | globalVarDeclaration | stringType | refType | qualifiedName
  | statementList | assignmentStatement | functionCallStatement | ifStatement | elsifClause
  | elseClause | caseStatement | caseBranch | caseSelector | forStatement | whileStatement
  | repeatStatement | returnStatement | exitStatement | emptyStatement
  | orExpression | andExpression | comparisonExpression | additiveExpression
  | multiplicativeExpression | powerExpression | unaryExpression | parenthesizedExpression
  | variableAccess | functionCall | argumentList | namedArgument
  | integerLiteral | realLiteral | stringLiteral | booleanLiteral | timeLiteral | dateLiteral
  | todLiteral | dtLiteral | typedLiteral | nullLiteral | lineComment | blockComment | identifier
  | classDeclaration | methodDeclaration | interfaceDeclaration | methodPrototype
  | propertyDeclaration | propertyGet | propertySet | accessSpecifier
  | thisExpression | superExpression | partialAccess
  | token | error
  deriving DecidableEq, Repr

/-- The field names of the grammar. -/
inductive Field where
  | name | body | returnType | abstract | final | override | base | interfaces | access | type
  | get | set | default | value | baseType | lower | upper | initialValue | targetType
  | elementType | length | target | condition | consequence | expression | variable | from | to
  | step | op | operand | left | right | arguments
  deriving DecidableEq, Repr

/-- A node. `word` is the text of a node without children. -/
inductive Node where
  | mk (kind : Kind) (named : Bool) (field : Option Field) (range : TextRange) (word : String)
      (children : List Node)

namespace Node

def kind : Node → Kind
  | mk k _ _ _ _ _ => k

def named : Node → Bool
  | mk _ b _ _ _ _ => b

def field : Node → Option Field
  | mk _ _ f _ _ _ => f

def range : Node → TextRange
  | mk _ _ _ r _ _ => r

def word : Node → String
  | mk _ _ _ _ w _ => w

def children : Node → List Node
  | mk _ _ _ _ _ cs => cs

theorem sizeOf_child {c n : Node} (h : c ∈ n.children) : sizeOf c < sizeOf n := by
  cases n with
  | mk k b f r w cs =>
    have := List.sizeOf_lt_of_mem h
    simp only [mk.sizeOf_spec, children] at this ⊢
    omega

mutual

/-- The characters of a node and its children; the white space between them
is left out, it is compared with nothing. -/
def chars : Node → List Char
  | mk _ _ _ _ w cs => w.toList ++ charsOf cs

def charsOf : List Node → List Char
  | [] => []
  | c :: cs => c.chars ++ charsOf cs

end

/-- mirrors crates/st-syntax/src/lower.rs:72-74 -/
def text (n : Node) : String := String.ofList n.chars

theorem chars_eq (n : Node) : n.chars = n.word.toList ++ charsOf n.children := by
  cases n
  simp only [chars, word, children]

theorem charsOf_eq (cs : List Node) : charsOf cs = cs.flatMap chars := by
  induction cs with
  | nil => rfl
  | cons c cs ih => rw [charsOf, ih, List.flatMap_cons]

def childByFieldName (n : Node) (f : Field) : Option Node :=
  n.children.find? (·.field == some f)

def childrenByFieldName (n : Node) (f : Field) : List Node :=
  n.children.filter (·.field == some f)

def namedChildren (n : Node) : List Node := n.children.filter (·.named)

def childrenOfKind (n : Node) (k : Kind) : List Node := n.children.filter (·.kind == k)

/-! ## Comments -/

def isComment (n : Node) : Bool := n.kind == .lineComment || n.kind == .blockComment

/-- What tree-sitter delivers for a comment: a named node without field and
children whose text opens a comment (grammar.js:743-756). -/
structure Extra (c : Node) : Prop where
  comment : c.isComment = true
  named : c.named = true
  field : c.field = none
  children : c.children = []
  opens : ∃ a b rest, c.chars = a :: b :: rest ∧ (a = '/' ∨ a = '(')

mutual

/-- The node without its comments and positions. -/
def bare : Node → Node
  | mk k b f _ w cs => mk k b f noRange w (bareOf cs)

def bareOf : List Node → List Node
  | [] => []
  | c :: cs => if c.isComment then bareOf cs else c.bare :: bareOf cs

end

/-- `m` is `n` or a node below it. -/
inductive Within (m : Node) : Node → Prop
  | refl : Within m m
  | child {c n : Node} (mem : c ∈ n.children) (h : Within m c) : Within m n

/-- The comments of one node are extras between its children; the root alone
may begin or end with one. -/
structure Placed (n : Node) : Prop where
  extra : ∀ c ∈ n.children, c.isComment = true → Extra c
  ends : n.kind ≠ .sourceFile → ∀ c, (n.children.head? = some c ∨ n.children.getLast? = some c) →
    c.isComment = false

/-- All comments of a tree are placed so. -/
def Commented (n : Node) : Prop := ∀ m, Within m n → Placed m

end Node

mutual

/-- The second tree is the first with comments inserted between siblings; the
positions move. -/
inductive Inserted : Node → Node → Prop
  | node {k : Kind} {b : Bool} {f : Option Field} {r r' : TextRange} {w : String}
    {cs cs' : List Node} (h : InsertedAmong cs cs') : Inserted (.mk k b f r w cs) (.mk k b f r' w cs')

inductive InsertedAmong : List Node → List Node → Prop
  | nil : InsertedAmong [] []
  | cons {c c' : Node} {cs cs' : List Node} (h : Inserted c c') (hs : InsertedAfter cs cs') :
    InsertedAmong (c :: cs) (c' :: cs')

/-- The same behind a sibling. -/
inductive InsertedAfter : List Node → List Node → Prop
  | nil : InsertedAfter [] []
  | cons {c c' : Node} {cs cs' extras : List Node} (hx : ∀ x ∈ extras, Node.Extra x)
    (h : Inserted c c') (hs : InsertedAfter cs cs') :
    InsertedAfter (c :: cs) (extras ++ c' :: cs')

end

namespace Node

/-! ## Trees without comments -/

@[simp] theorem kind_bare (n : Node) : n.bare.kind = n.kind := by cases n; rfl
@[simp] theorem named_bare (n : Node) : n.bare.named = n.named := by cases n; rfl
@[simp] theorem field_bare (n : Node) : n.bare.field = n.field := by cases n; rfl
@[simp] theorem word_bare (n : Node) : n.bare.word = n.word := by cases n; rfl
@[simp] theorem range_bare (n : Node) : n.bare.range = noRange := by cases n; rfl

theorem bareOf_eq (cs : List Node) : bareOf cs = (cs.filter fun c => !c.isComment).map bare := by
  induction cs with
  | nil => rfl
  | cons c cs ih =>
    rw [bareOf, ih]
    cases h : c.isComment <;> simp [h]

theorem children_bare (n : Node) :
    n.bare.children = (n.children.filter fun c => !c.isComment).map bare := by
  cases n
  simp only [bare, children, bareOf_eq]

theorem bareOf_append (cs ds : List Node) : bareOf (cs ++ ds) = bareOf cs ++ bareOf ds := by
  simp [bareOf_eq]

theorem bareOf_extras {cs : List Node} (h : ∀ c ∈ cs, Extra c) : bareOf cs = [] := by
  rw [bareOf_eq, List.map_eq_nil_iff, List.filter_eq_nil_iff]
  intro c hc
  simp [(h c hc).comment]

theorem within_iff {m n : Node} : Within m n ↔ m = n ∨ ∃ c ∈ n.children, Within m c := by
  constructor
  · intro h
    cases h with
    | refl => exact .inl rfl
    | child mem h => exact .inr ⟨_, mem, h⟩
  · rintro (rfl | ⟨c, mem, h⟩)
    · exact .refl
    · exact .child mem h

theorem commented_iff {n : Node} : Commented n ↔ Placed n ∧ ∀ c ∈ n.children, Commented c := by
  simp only [Commented, within_iff (n := n)]
  constructor
  · intro h
    exact ⟨h n (.inl rfl), fun c hc m hm => h m (.inr ⟨c, hc, hm⟩)⟩
  · rintro ⟨h, hs⟩ m (rfl | ⟨c, hc, hm⟩)
    · exact h
    · exact hs c hc m hm

end Node

/-! ## Inserting comments -/

open Node

theorem Inserted.isComment {t t' : Node} (h : Inserted t t') : t.isComment = t'.isComment := by
  cases h
  rfl

mutual

theorem Inserted.sameBare {t t' : Node} : Inserted t t' → t.bare = t'.bare
  | .node h => by
    simp only [Node.bare, h.sameBare]

theorem InsertedAmong.sameBare {cs cs' : List Node} : InsertedAmong cs cs' → bareOf cs = bareOf cs'
  | .nil => rfl
  | .cons h hs => by
    simp only [bareOf, h.sameBare, hs.sameBare, h.isComment]

theorem InsertedAfter.sameBare {cs cs' : List Node} : InsertedAfter cs cs' → bareOf cs = bareOf cs'
  | .nil => rfl
  | .cons hx h hs => by
    simp only [bareOf_append, bareOf_extras hx, List.nil_append, bareOf, h.sameBare, hs.sameBare,
      h.isComment]

end

theorem Inserted.extra {c c' : Node} (h : Inserted c c') (hc : Extra c) : Extra c' := by
  obtain ⟨comment, named, field, children, opens⟩ := hc
  cases h with
  | node h =>
    cases children
    cases h
    exact ⟨comment, named, field, rfl, opens⟩

theorem InsertedAfter.mem {cs cs' : List Node} (h : InsertedAfter cs cs') :
    ∀ c' ∈ cs', Extra c' ∨ ∃ c ∈ cs, Inserted c c' := by
  induction cs generalizing cs' with
  | nil =>
    cases h
    simp
  | cons c cs ih =>
    cases h with
    | cons hx h hs =>
      intro c' hc'
      rcases List.mem_append.mp hc' with hc' | hc'
      · exact .inl (hx c' hc')
      · rcases List.mem_cons.mp hc' with rfl | hc'
        · exact .inr ⟨c, List.mem_cons_self, h⟩
        · obtain hc' | ⟨d, hd, hdc⟩ := ih hs c' hc'
          · exact .inl hc'
          · exact .inr ⟨d, List.mem_cons_of_mem _ hd, hdc⟩

theorem InsertedAfter.getLast {cs cs' : List Node} (h : InsertedAfter cs cs') {c' : Node}
    (hl : cs'.getLast? = some c') : ∃ c, cs.getLast? = some c ∧ Inserted c c' := by
  induction cs generalizing cs' with
  | nil =>
    cases h
    simp at hl
  | cons c cs ih =>
    cases h with
    | @cons _ d _ ds extras _ h hs =>
      rw [List.getLast?_append_cons] at hl
      cases cs with
      | nil =>
        cases hs
        obtain rfl : d = c' := by simpa using hl
        exact ⟨c, rfl, h⟩
      | cons a as =>
        have hne : ds ≠ [] := by
          rintro rfl
          generalize hnil : ([] : List Node) = ds at hs
          cases hs
          simp at hnil
        obtain ⟨e, es, rfl⟩ := List.exists_cons_of_ne_nil hne
        rw [List.getLast?_cons_cons] at hl ⊢
        exact ih hs hl

theorem InsertedAmong.mem {cs cs' : List Node} (h : InsertedAmong cs cs') :
    ∀ c' ∈ cs', Extra c' ∨ ∃ c ∈ cs, Inserted c c' := by
  cases h with
  | nil => simp
  | cons h hs =>
    intro c' hc'
    rcases List.mem_cons.mp hc' with rfl | hc'
    · exact .inr ⟨_, List.mem_cons_self, h⟩
    · obtain hx | ⟨c, hc, hi⟩ := hs.mem c' hc'
      · exact .inl hx
      · exact .inr ⟨c, List.mem_cons_of_mem _ hc, hi⟩

theorem InsertedAmong.ends {cs cs' : List Node} (h : InsertedAmong cs cs') {c' : Node}
    (he : cs'.head? = some c' ∨ cs'.getLast? = some c') :
    ∃ c, (cs.head? = some c ∨ cs.getLast? = some c) ∧ Inserted c c' := by
  cases h with
  | nil => simp at he
  | @cons c d cs ds h hs =>
    obtain he | he := he
    · obtain rfl : d = c' := by simpa using he
      exact ⟨c, .inl rfl, h⟩
    · cases ds with
      | nil =>
        obtain rfl : d = c' := by simpa using he
        exact ⟨c, .inl rfl, h⟩
      | cons e es =>
        rw [List.getLast?_cons_cons] at he
        obtain ⟨b, hb, hi⟩ := hs.getLast he
        cases cs with
        | nil => simp at hb
        | cons a as => exact ⟨b, .inr (by rwa [List.getLast?_cons_cons]), hi⟩

theorem Inserted.mem {t t' : Node} (h : Inserted t t') :
    ∀ c' ∈ t'.children, Extra c' ∨ ∃ c ∈ t.children, Inserted c c' := by
  cases h with
  | node h => exact h.mem

theorem Inserted.placed {t t' : Node} (h : Inserted t t') (ht : Placed t) : Placed t' := by
  refine ⟨fun c' hc' hcom => ?_, fun hk c' he => ?_⟩
  · obtain hx | ⟨c, hc, hi⟩ := h.mem c' hc'
    · exact hx
    · exact hi.extra (ht.extra c hc (by rw [hi.isComment]; exact hcom))
  · cases h with
    | node h =>
      obtain ⟨c, hc, hi⟩ := h.ends he
      rw [← hi.isComment]
      exact ht.ends hk c hc

theorem Node.Extra.commented {c : Node} (h : Extra c) : Commented c := by
  refine commented_iff.mpr ⟨⟨?_, ?_⟩, ?_⟩
  all_goals simp [h.children]

/-- Inserted comments are placed between siblings. -/
theorem Inserted.commented {t t' : Node} (h : Inserted t t') (ht : Commented t) : Commented t' := by
  rw [commented_iff] at ht ⊢
  refine ⟨h.placed ht.1, fun c' hc' => ?_⟩
  obtain hx | ⟨c, hc, hi⟩ := h.mem c' hc'
  · exact hx.commented
  · exact hi.commented (ht.2 c hc)
termination_by sizeOf t
decreasing_by exact sizeOf_child hc

end RustPlc.Syntax
