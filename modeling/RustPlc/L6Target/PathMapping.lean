import Mathlib.Data.List.DropRight
import RustPlc.L6Target.AttachSession

/-!
# Paths of the client and of the target

`PathMapper` of crates/st-target-agent/src/dap_attach_handler.rs: paths below
the local root of the client and paths below the directory of the sources on
the target, with slashes and, from a Windows client, backslashes.

Results
* `path_mapping_iff`: when the two directions are right and inverse to each
  other.
-/
namespace RustPlc.Target

/-! ## The mapper -/

/-- mirrors crates/st-target-agent/src/dap_attach_handler.rs:40-46 -/
def PathMapper.new (remoteRoot : String) : PathMapper :=
  ⟨none, String.ofList (AttachSession.trimEnd '/' remoteRoot.toList)⟩

/-- mirrors crates/st-target-agent/src/dap_attach_handler.rs:49-54 -/
def PathMapper.setLocalRoot (mapper : PathMapper) (localRoot : String) : PathMapper :=
  { mapper with localRoot := some (String.ofList
      (AttachSession.trimEnd '\\' (AttachSession.trimEnd '/' localRoot.toList))) }

/-- mirrors crates/st-target-agent/src/dap_attach_handler.rs:58-68 -/
def PathMapper.toLocal (mapper : PathMapper) (remotePath : String) : String :=
  match mapper.localRoot with
  | none => remotePath
  | some localRoot =>
    let front := mapper.remoteRoot.toList ++ ['/']
    if front.isPrefixOf remotePath.toList then
      localRoot ++ "/" ++ String.ofList (remotePath.toList.drop front.length)
    else remotePath

/-- The mapper of a session whose client names its root. -/
def mapperOf (remoteRoot localRoot : String) : PathMapper :=
  (PathMapper.new remoteRoot).setLocalRoot localRoot

/-! ## Paths -/

def isSeparator (c : Char) : Bool := c = '/' || c = '\\'

/-- A path with one separator throughout. -/
def withSeparator (sep : Char) (path : List Char) : List Char :=
  path.map fun c => if isSeparator c then sep else c

/-- The root of the client, without the separators at its end. -/
def clientRoot (localRoot : String) : List Char := localRoot.toList.rdropWhile isSeparator

/-- The root of the target, without the slashes at its end. -/
def targetRoot (remoteRoot : String) : List Char := remoteRoot.toList.rdropWhile (· == '/')

/-- A file below a root: the names of the directories and of the file. -/
structure RelPath where
  names : List (List Char)
  nonempty : names ≠ []
  proper : ∀ n ∈ names, n ≠ [] ∧ '/' ∉ n

def RelPath.joined (f : RelPath) (sep : Char) : List Char := [sep].intercalate f.names

/-- How the client spells the path of a file, in either style. -/
def clientPath (localRoot : String) (f : RelPath) (sep : Char) : List Char :=
  withSeparator sep (clientRoot localRoot) ++ sep :: f.joined sep

/-- The path of a file on the target. -/
def targetPath (remoteRoot : String) (f : RelPath) : List Char :=
  targetRoot remoteRoot ++ '/' :: f.joined '/'

/-- The names in a path: what is between separators. -/
def pathNames (path : List Char) : List (List Char) := (path.splitOnP isSeparator).filter (· ≠ [])

/-- The same file to the client, which takes several separators for one. -/
structure SameFile (p q : List Char) : Prop where
  names : pathNames p = pathNames q
  absolute : p.head?.any isSeparator = q.head?.any isSeparator

/-! ## What the mapper is for -/

variable (remoteRoot localRoot : String)

/-- The client's path of a file, in either style, leads to the file. -/
def LeadsToTarget (f : RelPath) : Prop :=
  ∀ sep, isSeparator sep →
    ((mapperOf remoteRoot localRoot).toRemote (String.ofList (clientPath localRoot f sep))).toList =
      targetPath remoteRoot f

/-- The target's path of a file leads to the file of the client. -/
def LeadsToClient (f : RelPath) : Prop :=
  SameFile ((mapperOf remoteRoot localRoot).toLocal (String.ofList (targetPath remoteRoot f))).toList
    (clientPath localRoot f '/')

/-- A path `rest` below the target's root comes back. -/
def ComesBack (rest : List Char) : Prop :=
  let path := String.ofList (targetRoot remoteRoot ++ '/' :: rest)
  (mapperOf remoteRoot localRoot).toRemote ((mapperOf remoteRoot localRoot).toLocal path) = path

/-- A path that is not below a root stays as it is. -/
structure PassesThrough (path : String) : Prop where
  toLocal : ¬ targetRoot remoteRoot ++ ['/'] <+: path.toList →
    (mapperOf remoteRoot localRoot).toLocal path = path
  toRemote : ¬ withSeparator '/' (clientRoot localRoot) ++ ['/'] <+: withSeparator '/' path.toList →
    (mapperOf remoteRoot localRoot).toRemote path = path

/-- The root as the mapper has it: without the slashes, then without the
backslashes at its end. -/
def trimmedRoot : List Char := (localRoot.toList.rdropWhile (· == '/')).rdropWhile (· == '\\')

/-- A root with slashes, and none left at its end. -/
structure PlainRoot : Prop where
  slashes : '\\' ∉ trimmedRoot localRoot
  trimmed : (trimmedRoot localRoot).getLast? ≠ some '/'

/-! ## Separators -/

section

variable {sep : Char} {a b : List Char}

@[simp] theorem length_withSeparator : (withSeparator sep a).length = a.length := List.length_map _

@[simp] theorem withSeparator_append :
    withSeparator sep (a ++ b) = withSeparator sep a ++ withSeparator sep b := List.map_append

theorem withSeparator_cons (c : Char) :
    withSeparator sep (c :: a) = (if isSeparator c then sep else c) :: withSeparator sep a := rfl

/-- What the code replaces. -/
theorem slashed_eq (path : List Char) :
    path.map (fun c => if c = '\\' then '/' else c) = withSeparator '/' path := by
  refine List.map_congr_left fun c _ => ?_
  unfold isSeparator
  by_cases h : c = '/'
  · subst h
    rfl
  · simp [h]

theorem slashed_eq_self : withSeparator '/' a = a ↔ '\\' ∉ a := by
  induction a with
  | nil => simp [withSeparator]
  | cons c a ih =>
    rw [withSeparator_cons, List.cons.injEq, ih, List.mem_cons, not_or]
    refine and_congr_left fun _ => ?_
    unfold isSeparator
    by_cases h : c = '/'
    · subst h
      decide
    · simp [h, eq_comm]

theorem slash_notMem_withSeparator (h : sep ≠ '/') : '/' ∉ withSeparator sep a := by
  intro hmem
  obtain ⟨c, -, hc⟩ := List.mem_map.mp hmem
  split at hc
  · exact h hc
  next hno =>
    subst hc
    exact hno rfl

theorem slashed_withSeparator (hsep : isSeparator sep) :
    withSeparator '/' (withSeparator sep a) = withSeparator '/' a := by
  unfold withSeparator
  rw [List.map_map]
  refine List.map_congr_left fun c _ => ?_
  by_cases h : isSeparator c = true
  · simp [h, hsep]
  · simp [h]

end

namespace RelPath

variable {f : RelPath} {sep : Char}

theorem mem_joined {c : Char} : ∀ {names : List (List Char)}, c ∈ [sep].intercalate names →
    c = sep ∨ ∃ n ∈ names, c ∈ n
  | [], h => by simp at h
  | [n], h => .inr ⟨n, by simp, by simpa using h⟩
  | n :: m :: names, h => by
    rw [List.intercalate_cons_cons, List.mem_append, List.mem_append, List.mem_singleton] at h
    rcases h with (h | h) | h
    · exact .inr ⟨n, by simp, h⟩
    · exact .inl h
    · rcases mem_joined h with h | ⟨k, hk, h⟩
      · exact .inl h
      · exact .inr ⟨k, List.mem_cons_of_mem n hk, h⟩

theorem mem_joined_of_name {c : Char} : ∀ {names : List (List Char)} {n : List Char}, n ∈ names →
    c ∈ n → c ∈ [sep].intercalate names
  | [], n, h, _ => by cases h
  | [m], n, h, hc => by
    obtain rfl := List.mem_singleton.mp h
    simpa using hc
  | m :: k :: names, n, h, hc => by
    rw [List.intercalate_cons_cons, List.mem_append]
    rcases List.mem_cons.mp h with rfl | h
    · exact .inl (List.mem_append_left _ hc)
    · exact .inr (mem_joined_of_name h hc)

theorem slashed_intercalate (hsep : isSeparator sep) : ∀ names : List (List Char),
    withSeparator '/' ([sep].intercalate names) =
      ['/'].intercalate (names.map (withSeparator '/'))
  | [] => rfl
  | [n] => by simp
  | n :: m :: names => by
    rw [List.intercalate_cons_cons, withSeparator_append, withSeparator_append,
      slashed_intercalate hsep (m :: names), List.map_cons, List.map_cons, List.map_cons,
      List.intercalate_cons_cons, withSeparator_cons, if_pos hsep]
    rfl

/-- Both styles are one path with slashes. -/
theorem slashed_joined (hsep : isSeparator sep) :
    withSeparator '/' (f.joined sep) = withSeparator '/' (f.joined '/') := by
  rw [joined, joined, slashed_intercalate hsep, slashed_intercalate (by rfl)]

theorem joined_plain : '\\' ∉ f.joined '/' ↔ ∀ n ∈ f.names, '\\' ∉ n := by
  constructor
  · exact fun h n hn hc => h (mem_joined_of_name hn hc)
  · intro h hmem
    rcases mem_joined hmem with hsep | ⟨n, hn, hc⟩
    · cases hsep
    · exact h n hn hc

theorem slash_notMem_joined (h : sep ≠ '/') : '/' ∉ f.joined sep := by
  intro hmem
  rcases mem_joined hmem with hsep | ⟨n, hn, hc⟩
  · exact h hsep.symm
  · exact (f.proper n hn).2 hc

end RelPath

/-! ## Roots -/

variable {remoteRoot localRoot : String}

theorem rdropWhile_append_all {p : Char → Bool} {a y : List Char} (h : ∀ c ∈ y, p c) :
    (a ++ y).rdropWhile p = a.rdropWhile p := by
  rw [List.rdropWhile, List.reverse_append,
    List.dropWhile_append_of_pos fun c hc => h c (List.mem_reverse.mp hc), List.rdropWhile]

/-- What the trimming leaves behind the client's root is separators. -/
theorem trimmedRoot_eq (localRoot : String) :
    ∃ x, trimmedRoot localRoot = clientRoot localRoot ++ x ∧ ∀ c ∈ x, isSeparator c := by
  have hslashes {c : Char} (h : (c == '/') = true) : isSeparator c = true := by
    simp only [beq_iff_eq] at h
    simp [isSeparator, h]
  have hbackslashes {c : Char} (h : (c == '\\') = true) : isSeparator c = true := by
    simp only [beq_iff_eq] at h
    simp [isSeparator, h]
  have hroot : clientRoot localRoot = (trimmedRoot localRoot).rdropWhile isSeparator := by
    have hlocal := List.rdropWhile_append_rtakeWhile (p := (· == '/')) (l := localRoot.toList)
    have hslash := List.rdropWhile_append_rtakeWhile (p := (· == '\\'))
      (l := localRoot.toList.rdropWhile (· == '/'))
    rw [clientRoot, ← hlocal, rdropWhile_append_all fun c hc =>
        hslashes (List.mem_rtakeWhile_imp (p := (· == '/')) hc),
      ← hslash, rdropWhile_append_all fun c hc =>
        hbackslashes (List.mem_rtakeWhile_imp (p := (· == '\\')) hc)]
    rfl
  refine ⟨(trimmedRoot localRoot).rtakeWhile isSeparator, ?_, fun c => List.mem_rtakeWhile_imp⟩
  rw [hroot, List.rdropWhile_append_rtakeWhile]

theorem plainRoot_iff :
    PlainRoot localRoot ↔ trimmedRoot localRoot = withSeparator '/' (clientRoot localRoot) := by
  obtain ⟨x, hx, hsep⟩ := trimmedRoot_eq localRoot
  constructor
  · rintro ⟨hslashes, htrimmed⟩
    have hnil : x = [] := by
      by_contra hne
      have hlast := hsep _ (List.getLast_mem hne)
      have hend : (trimmedRoot localRoot).getLast? = some (x.getLast hne) := by
        rw [hx, List.getLast?_append_of_ne_nil _ hne, List.getLast?_eq_getLast_of_ne_nil hne]
      have hmem := List.mem_of_getLast? hend
      unfold isSeparator at hlast
      simp only [Bool.or_eq_true, decide_eq_true_eq] at hlast
      rcases hlast with h | h
      · exact htrimmed (h ▸ hend)
      · exact hslashes (h ▸ hmem)
    rw [hnil, List.append_nil] at hx
    rw [← hx, slashed_eq_self.mpr hslashes]
  · intro h
    have hlen := congrArg List.length (hx.symm.trans h)
    rw [List.length_append, length_withSeparator] at hlen
    obtain rfl := List.eq_nil_of_length_eq_zero (show x.length = 0 by omega)
    rw [List.append_nil] at hx
    refine ⟨slashed_eq_self.mp ?_, fun hend => ?_⟩
    · rw [hx] at h ⊢
      exact h.symm
    · rw [hx] at hend
      have hne : clientRoot localRoot ≠ [] := by
        intro hnil
        rw [hnil] at hend
        cases hend
      rw [List.getLast?_eq_getLast_of_ne_nil hne, Option.some.injEq] at hend
      have hlast : ¬ isSeparator ((clientRoot localRoot).getLast hne) :=
        List.rdropWhile_last_not isSeparator localRoot.toList hne
      rw [hend] at hlast
      exact hlast rfl

/-! ## The mapper on characters -/

theorem mapperOf_localRoot :
    (mapperOf remoteRoot localRoot).localRoot = some (String.ofList (trimmedRoot localRoot)) := by
  rw [mapperOf, PathMapper.setLocalRoot, AttachSession.trimEnd, AttachSession.trimEnd]
  rfl

theorem mapperOf_remoteRoot :
    (mapperOf remoteRoot localRoot).remoteRoot = String.ofList (targetRoot remoteRoot) := rfl

theorem toRemote_eq (path : String) : ((mapperOf remoteRoot localRoot).toRemote path).toList =
    if trimmedRoot localRoot ++ ['/'] <+: withSeparator '/' path.toList then
      targetRoot remoteRoot ++ '/' ::
        (withSeparator '/' path.toList).drop ((trimmedRoot localRoot).length + 1)
    else path.toList := by
  rw [PathMapper.toRemote, mapperOf_localRoot]
  dsimp only
  rw [slashed_eq, String.toList_ofList, mapperOf_remoteRoot]
  simp only [List.isPrefixOf_iff_prefix, List.length_append, List.length_singleton]
  split
  · simp
  · rfl

theorem toLocal_eq (path : String) : ((mapperOf remoteRoot localRoot).toLocal path).toList =
    if targetRoot remoteRoot ++ ['/'] <+: path.toList then
      trimmedRoot localRoot ++ '/' :: path.toList.drop ((targetRoot remoteRoot).length + 1)
    else path.toList := by
  rw [PathMapper.toLocal, mapperOf_localRoot]
  dsimp only
  rw [mapperOf_remoteRoot, String.toList_ofList]
  simp only [List.isPrefixOf_iff_prefix, List.length_append, List.length_singleton]
  split
  · simp
  · rfl

theorem below_iff {root path : List Char} : root ++ ['/'] <+: path ↔ ∃ t, path = root ++ '/' :: t := by
  constructor
  · rintro ⟨t, rfl⟩
    exact ⟨t, by simp⟩
  · rintro ⟨t, rfl⟩
    exact ⟨t, by simp⟩

theorem toRemote_below {path : String} {t : List Char}
    (h : withSeparator '/' path.toList = trimmedRoot localRoot ++ '/' :: t) :
    ((mapperOf remoteRoot localRoot).toRemote path).toList = targetRoot remoteRoot ++ '/' :: t := by
  rw [toRemote_eq, if_pos (below_iff.mpr ⟨t, h⟩), h, List.drop_append]
  simp

theorem toRemote_other {path : String}
    (h : ∀ t, withSeparator '/' path.toList ≠ trimmedRoot localRoot ++ '/' :: t) :
    ((mapperOf remoteRoot localRoot).toRemote path).toList = path.toList := by
  rw [toRemote_eq, if_neg]
  rw [below_iff]
  exact fun ⟨t, ht⟩ => h t ht

theorem toLocal_below (rest : List Char) :
    ((mapperOf remoteRoot localRoot).toLocal
        (String.ofList (targetRoot remoteRoot ++ '/' :: rest))).toList =
      trimmedRoot localRoot ++ '/' :: rest := by
  rw [toLocal_eq, String.toList_ofList, if_pos (below_iff.mpr ⟨rest, rfl⟩), List.drop_append]
  simp

/-! ## Files -/

/-- The client's path of a file, with slashes. -/
theorem slashed_clientPath (f : RelPath) {sep : Char} (hsep : isSeparator sep) :
    withSeparator '/' (clientPath localRoot f sep) =
      withSeparator '/' (clientRoot localRoot) ++ '/' :: withSeparator '/' (f.joined '/') := by
  rw [clientPath, withSeparator_append, slashed_withSeparator hsep, withSeparator_cons,
    if_pos hsep, RelPath.slashed_joined hsep]

theorem leadsToTarget_iff (f : RelPath) :
    LeadsToTarget remoteRoot localRoot f ↔
      PlainRoot localRoot ∧ ∀ n ∈ f.names, '\\' ∉ n := by
  rw [plainRoot_iff, ← RelPath.joined_plain, ← slashed_eq_self]
  constructor
  · intro h
    have hroot : trimmedRoot localRoot = withSeparator '/' (clientRoot localRoot) := by
      have hback := h '\\' rfl
      by_cases hbelow : ∃ t, withSeparator '/' (clientPath localRoot f '\\') =
          trimmedRoot localRoot ++ '/' :: t
      · obtain ⟨t, ht⟩ := hbelow
        rw [toRemote_below (by rw [String.toList_ofList]; exact ht), targetPath,
          List.append_cancel_left_eq, List.cons.injEq] at hback
        obtain ⟨-, rfl⟩ := hback
        -- what is behind the root has the length of the names, so the roots have one length
        rw [slashed_clientPath f rfl] at ht
        have hlen := congrArg List.length ht
        simp only [List.length_append, List.length_cons, length_withSeparator] at hlen
        exact (List.append_inj_left ht (by rw [length_withSeparator]; omega)).symm
      · -- the path as it is has no slash
        rw [toRemote_other (by rw [String.toList_ofList]; exact fun t ht => hbelow ⟨t, ht⟩),
          String.toList_ofList] at hback
        have hslash : '/' ∈ clientPath localRoot f '\\' := by
          rw [hback]
          exact List.mem_append_right _ List.mem_cons_self
        rw [clientPath, List.mem_append, List.mem_cons] at hslash
        rcases hslash with h | h | h
        · exact absurd h (slash_notMem_withSeparator (by decide))
        · cases h
        · exact absurd h (RelPath.slash_notMem_joined (by decide))
    refine ⟨hroot, ?_⟩
    have hslash := h '/' rfl
    rw [toRemote_below (t := withSeparator '/' (f.joined '/'))
      (by rw [String.toList_ofList, slashed_clientPath f rfl, hroot]), targetPath,
      List.append_cancel_left_eq, List.cons.injEq] at hslash
    exact hslash.2
  · rintro ⟨hroot, hplain⟩ sep hsep
    rw [toRemote_below (t := f.joined '/')
      (by rw [String.toList_ofList, slashed_clientPath f hsep, hroot, hplain]), targetPath]

/-! ## Names -/

theorem pathNames_append (a b : List Char) {c : Char} (hc : isSeparator c) :
    pathNames (a ++ c :: b) = pathNames a ++ pathNames b := by
  rw [pathNames, List.splitOnP_append_cons _ _ hc, List.filter_append, pathNames, pathNames]

theorem pathNames_separators (a : List Char) {x : List Char} (h : ∀ c ∈ x, isSeparator c) :
    pathNames (a ++ x) = pathNames a := by
  induction x generalizing a with
  | nil => rw [List.append_nil]
  | cons c x ih =>
    obtain ⟨hc, hx⟩ := List.forall_mem_cons.mp h
    have hnil : pathNames [] = [] := by decide
    rw [pathNames_append a x hc, ← List.nil_append x, ih [] hx, hnil, List.append_nil]

theorem isSeparator_slashed (c : Char) :
    isSeparator (if isSeparator c then '/' else c) = isSeparator c := by
  by_cases h : isSeparator c = true
  · rw [if_pos h, h]
    rfl
  · rw [if_neg h]

theorem splitOnP_slashed (a : List Char) :
    (withSeparator '/' a).splitOnP isSeparator = a.splitOnP isSeparator := by
  induction a with
  | nil => rfl
  | cons c a ih =>
    rw [withSeparator_cons, List.splitOnP_cons_eq_if_modifyHead, List.splitOnP_cons_eq_if_modifyHead,
      isSeparator_slashed, ih]
    by_cases h : isSeparator c = true
    · rw [if_pos h, if_pos h]
    · rw [if_neg h, if_neg h, if_neg h]

/-- What the trimming leaves does not lead to another file. -/
theorem leadsToClient (f : RelPath) : LeadsToClient remoteRoot localRoot f := by
  obtain ⟨x, hx, hsep⟩ := trimmedRoot_eq localRoot
  rw [LeadsToClient, targetPath, toLocal_below, clientPath, hx]
  constructor
  · rw [pathNames_append _ _ rfl, pathNames_append _ _ rfl, pathNames_separators _ hsep, pathNames,
      pathNames, pathNames, splitOnP_slashed]
  · cases clientRoot localRoot with
    | nil =>
      cases x with
      | nil => rfl
      | cons c x => exact hsep c List.mem_cons_self
    | cons c root => exact (isSeparator_slashed c).symm

/-! ## Other paths -/

theorem comesBack_iff (rest : List Char) :
    ComesBack remoteRoot localRoot rest ↔
      ('\\' ∉ trimmedRoot localRoot ∧ '\\' ∉ rest) ∨
        ('\\' ∈ trimmedRoot localRoot ∧ trimmedRoot localRoot = targetRoot remoteRoot) := by
  rw [ComesBack, ← String.toList_inj, String.toList_ofList]
  have hpath := @toLocal_below remoteRoot localRoot rest
  by_cases hplain : '\\' ∈ trimmedRoot localRoot
  · -- the root with its backslashes does not begin a path with slashes
    rw [toRemote_other, hpath, List.append_left_inj]
    · exact ⟨fun h => .inr ⟨hplain, h⟩, fun h => h.elim (fun h => absurd hplain h.1) (·.2)⟩
    · intro t ht
      refine absurd hplain (slashed_eq_self.mp ?_)
      rw [hpath, withSeparator_append] at ht
      exact List.append_inj_left ht length_withSeparator
  · rw [toRemote_below (t := withSeparator '/' rest), List.append_cancel_left_eq, List.cons.injEq,
      slashed_eq_self]
    · exact ⟨fun h => .inl ⟨hplain, h.2⟩, fun h => ⟨rfl, h.elim (·.2) fun h => absurd h.1 hplain⟩⟩
    · rw [hpath, withSeparator_append, slashed_eq_self.mpr hplain]
      rfl

theorem passesThrough (path : String) : PassesThrough remoteRoot localRoot path := by
  constructor
  · intro h
    rw [← String.toList_inj, toLocal_eq, if_neg h]
  · intro h
    rw [← String.toList_inj, toRemote_eq, if_neg]
    intro hbelow
    obtain ⟨t, ht⟩ := below_iff.mp hbelow
    obtain ⟨x, hx, hsep⟩ := trimmedRoot_eq localRoot
    -- replacing again changes nothing, so the path begins with the client's root
    have hslashed : withSeparator '/' (withSeparator '/' path.toList) =
        withSeparator '/' path.toList := slashed_withSeparator rfl
    rw [ht, hx, List.append_assoc, withSeparator_append] at hslashed
    have hroot := List.append_inj_left hslashed length_withSeparator
    refine h (below_iff.mpr ?_)
    rw [hroot, ht, hx, List.append_assoc]
    cases x with
    | nil => exact ⟨t, rfl⟩
    | cons c x =>
      have hrest := List.append_inj_right hslashed length_withSeparator
      rw [List.cons_append, withSeparator_cons, if_pos (hsep c List.mem_cons_self),
        List.cons.injEq] at hrest
      exact ⟨x ++ '/' :: t, by rw [← hrest.1, List.cons_append]⟩

/-- **The mapping of paths.** A file's path leads to the target exactly when the
root of the client, as it is trimmed, has no backslash and no slash at its end,
and the names have no backslash; the way back leads to the file; a path below
the target's root comes back unless a backslash is replaced or, in the client's
root, is in the way; other paths stay as they are. -/
theorem path_mapping_iff (remoteRoot localRoot : String) (f : RelPath) (rest : List Char)
    (path : String) :
    (LeadsToTarget remoteRoot localRoot f ↔ PlainRoot localRoot ∧ ∀ n ∈ f.names, '\\' ∉ n) ∧
    LeadsToClient remoteRoot localRoot f ∧
    (ComesBack remoteRoot localRoot rest ↔
      ('\\' ∉ trimmedRoot localRoot ∧ '\\' ∉ rest) ∨
        ('\\' ∈ trimmedRoot localRoot ∧ trimmedRoot localRoot = targetRoot remoteRoot)) ∧
    PassesThrough remoteRoot localRoot path :=
  ⟨leadsToTarget_iff f, leadsToClient f, comesBack_iff rest, passesThrough path⟩

def mainProgram : RelPath := ⟨["main.st".toList], by decide, by decide⟩

/-- A client on Windows that names its root as Windows does. -/
theorem windows_root_lost :
    ¬ (∀ remoteRoot localRoot f, LeadsToTarget remoteRoot localRoot f) ∧
    ¬ ∀ remoteRoot localRoot rest, ComesBack remoteRoot localRoot rest := by
  constructor
  · intro h
    exact ((leadsToTarget_iff mainProgram).mp (h "/srv/plc" "C:\\plc" mainProgram)).1.slashes (by decide)
  · intro h
    have hcases := (comesBack_iff _).mp (h "/srv/plc" "C:\\plc" "main.st".toList)
    exact absurd hcases (by decide)

end RustPlc.Target
