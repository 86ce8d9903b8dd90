/-
# What is seen of a tree of files

At the end of a path there is a file with its bytes, or a directory, or the path leads nowhere for
some reason. Nothing else is seen of a tree, so each way of changing it is described by what is seen
afterwards, at any path. A file that is put or erased shows at its own path and below. Making
directories shows at their paths; what is seen behind them changes only when a path was given up
there because a name is too long, and would have ended earlier before.
-/

import ParallelLoop.Buffer.FileTree
import ParallelLoop.Proofs.Buffer.Storage

namespace ParallelLoop

namespace FileTree

variable {tree after : FileTree} {entries : List (String × FileTree)} {name other last : String}
  {names path front rest : List String} {bytes : Bytes}

/-- The name is not too long to be looked up. -/
def isShort (name : String) : Bool := name.utf8ByteSize ≤ maxNameBytes

/-- How far a path is followed: up to the first name that is too long. -/
def reach (names : List String) : List String := names.takeWhile isShort

/-- What is seen at the end of a path: the bytes of a file, or that there is a directory. -/
def glance (tree : FileTree) (names : List String) : Except StorageFault (Option Bytes) :=
  match tree.find names with
  | .ok (.file bytes) => .ok (some bytes)
  | .ok (.directory _) => .ok none
  | .error fault => .error fault

/-- A file is there or can be put there. -/
def MayHoldFile (tree : FileTree) (names : List String) : Prop :=
  tree.glance names = .error .missingFile ∨ ∃ bytes, tree.glance names = .ok (some bytes)

theorem reach_cons_of_short (short : isShort name = true) (rest : List String) :
    reach (name :: rest) = name :: reach rest :=
  List.takeWhile_cons_of_pos short

theorem reach_cons_of_long (long : isShort name = false) (rest : List String) :
    reach (name :: rest) = [] :=
  List.takeWhile_cons_of_neg (by rw [long]; nofun)

theorem reach_append (short : ∀ name ∈ names, isShort name = true) (rest : List String) :
    reach (names ++ rest) = names ++ reach rest :=
  List.takeWhile_append_of_pos short

theorem reach_eq_self (short : ∀ name ∈ names, isShort name = true) : reach names = names := by
  rw [← List.append_nil names, reach_append short]
  rfl

theorem not_reach_prefix_dropLast (short : ∀ name ∈ names, isShort name = true)
    (given : names ≠ []) : ¬ reach names <+: reach names.dropLast := by
  rw [reach_eq_self short]
  intro within
  have fits := (within.trans (List.takeWhile_prefix isShort)).length_le
  rw [List.length_dropLast] at fits
  have some := List.length_pos_iff.mpr given
  omega

/-! ## Entries of directories -/

theorem lookUp_of_short (short : isShort name = true) (entries : List (String × FileTree)) :
    lookUp entries name = .ok (entries.lookup name) :=
  if_neg (Nat.not_lt.mpr (of_decide_eq_true short))

theorem lookUp_of_long (long : isShort name = false) (entries : List (String × FileTree)) :
    lookUp entries name = .error .nameTooLong :=
  if_pos (Nat.not_le.mp (of_decide_eq_false long))

theorem lookup_eraseEntry (entries : List (String × FileTree)) (name other : String) :
    (eraseEntry entries name).lookup other =
      if other = name then none else entries.lookup other :=
  lookup_filter_key entries name other

theorem lookup_putEntry (entries : List (String × FileTree)) (name : String) (tree : FileTree)
    (other : String) :
    (putEntry entries name tree).lookup other =
      if other = name then some tree else entries.lookup other := by
  unfold putEntry
  rw [List.lookup_cons]
  by_cases same : other = name
  · rw [beq_iff_eq.mpr same, if_pos same]
  · rw [beq_eq_false_iff_ne.mpr same, lookup_eraseEntry, if_neg same, if_neg same]

/-! ## Following paths -/

theorem glance_of_long (long : isShort name = false) (entries : List (String × FileTree))
    (rest : List String) : (directory entries).glance (name :: rest) = .error .nameTooLong := by
  rw [glance, find, lookUp_of_long long]
  rfl

theorem glance_of_short (short : isShort name = true) (entries : List (String × FileTree))
    (rest : List String) :
    (directory entries).glance (name :: rest) =
      match entries.lookup name with
      | some tree => tree.glance rest
      | none => .error .missingFile := by
  rw [glance, find, lookUp_of_short short]
  cases entries.lookup name <;> rfl

/-- An empty directory leads nowhere. -/
theorem glance_emptyDirectory_of_reach (given : reach names ≠ []) :
    emptyDirectory.glance names = .error .missingFile := by
  cases names with
  | nil => exact absurd rfl given
  | cons name rest =>
    cases short : isShort name with
    | true => exact glance_of_short short [] rest
    | false => exact absurd (reach_cons_of_long short rest) given

/-- What is seen at a path with a short first name depends on what is held under this name. -/
theorem glance_congr {others : List (String × FileTree)}
    (same : entries.lookup name = others.lookup name) (rest : List String) :
    (directory entries).glance (name :: rest) = (directory others).glance (name :: rest) := by
  cases short : isShort name with
  | true => rw [glance_of_short short, glance_of_short short, same]
  | false => rw [glance_of_long short, glance_of_long short]

/-- Another entry does not show. -/
theorem glance_putEntry_of_ne (apart : other ≠ name) (entries : List (String × FileTree))
    (tree : FileTree) (rest : List String) :
    (directory (putEntry entries name tree)).glance (other :: rest) =
      (directory entries).glance (other :: rest) :=
  glance_congr (by rw [lookup_putEntry, if_neg apart]) rest

theorem glance_putEntry_self (short : isShort name = true) (entries : List (String × FileTree))
    (tree : FileTree) (rest : List String) :
    (directory (putEntry entries name tree)).glance (name :: rest) = tree.glance rest := by
  rw [glance_of_short short, lookup_putEntry, if_pos rfl]

theorem glance_append (tree : FileTree) (front back : List String) :
    tree.glance (front ++ back) =
      match tree.find front with
      | .ok below => below.glance back
      | .error fault => .error fault := by
  induction front generalizing tree with
  | nil => cases tree <;> rfl
  | cons name front ih =>
    cases tree with
    | file bytes => rfl
    | directory entries =>
      rw [List.cons_append, glance, find, find]
      cases lookUp entries name with
      | error fault => rfl
      | ok found =>
        cases found with
        | none => rfl
        | some below => exact ih below

/-- Behind a file nothing is found. -/
theorem glance_append_of_file (held : tree.glance names = .ok (some bytes)) (rest : List String) :
    tree.glance (names ++ rest) = .ok (some bytes) ∨
      tree.glance (names ++ rest) = .error .notADirectory := by
  rw [glance_append]
  unfold glance at held
  split at held
  next stored found =>
    rw [found]
    cases rest with
    | nil => exact .inl held
    | cons name rest => exact .inr rfl
  next => cases held
  next => cases held

/-- A directory is not asked for a name that is too long. -/
theorem glance_append_of_long (inside : tree.glance front = .ok none)
    (long : isShort last = false) : tree.glance (front ++ [last]) = .error .nameTooLong := by
  rw [glance_append]
  unfold glance at inside
  split at inside
  next => cases inside
  next entries found =>
    rw [found]
    exact glance_of_long long entries []
  next => cases inside

/-- A path that is given up at once is not looked up. -/
theorem glance_ne_missingFile_of_reach (given : reach path = [])
    (entries : List (String × FileTree)) :
    (directory entries).glance path ≠ .error .missingFile := by
  cases path with
  | nil => exact nofun
  | cons first more =>
    cases short : isShort first with
    | false =>
      rw [glance_of_long short]
      exact nofun
    | true =>
      rw [reach_cons_of_short short] at given
      cases given

/-- When a directory is seen behind a name, it is held under the name. -/
theorem lookup_of_glance {seen : Option Bytes} (held : tree.glance (name :: rest) = .ok seen) :
    ∃ entries below, tree = .directory entries ∧ isShort name = true ∧
      entries.lookup name = some below ∧ below.glance rest = .ok seen := by
  cases tree with
  | file bytes => cases held
  | directory entries =>
    cases short : isShort name with
    | false =>
      rw [glance_of_long short] at held
      cases held
    | true =>
      rw [glance_of_short short] at held
      cases found : entries.lookup name with
      | none =>
        rw [found] at held
        cases held
      | some below =>
        rw [found] at held
        exact ⟨entries, below, rfl, rfl, found, held⟩

theorem short_of_glance {seen : Option Bytes} (held : tree.glance names = .ok seen) :
    ∀ name ∈ names, isShort name = true := by
  induction names generalizing tree with
  | nil => exact nofun
  | cons name rest ih =>
    obtain ⟨entries, below, -, short, -, inside⟩ := lookup_of_glance held
    exact List.forall_mem_cons.mpr ⟨short, ih inside⟩

/-! ## Making directories -/

theorem makeDirectories_of_long (long : isShort name = false)
    (entries : List (String × FileTree)) (rest : List String) :
    (directory entries).makeDirectories (name :: rest) =
      (.error .nameTooLong, directory entries) := by
  rw [makeDirectories, lookUp_of_long long]

theorem makeDirectories_of_short (short : isShort name = true)
    (entries : List (String × FileTree)) (rest : List String) :
    (directory entries).makeDirectories (name :: rest) =
      let made := ((entries.lookup name).getD emptyDirectory).makeDirectories rest
      (made.1, directory (putEntry entries name made.2)) := by
  rw [makeDirectories, lookUp_of_short short]

/-- Making directories shows only at paths that are followed along these directories, and no
further. -/
theorem glance_makeDirectories (names : List String)
    (apart : reach path = [] ∨ ¬ reach path <+: reach names) :
    (tree.makeDirectories names).2.glance path = tree.glance path := by
  -- Along the names: the path stays beside them or goes on below where they end.
  induction names generalizing tree path with
  | nil => cases tree <;> rfl
  | cons name rest ih =>
    cases tree with
    | file bytes => rfl
    | directory entries =>
      cases short : isShort name with
      | false => rw [makeDirectories_of_long short]
      | true =>
        rw [makeDirectories_of_short short]
        cases path with
        | nil => rfl
        | cons first more =>
          by_cases same : first = name
          · subst same
            -- A first name of its own is in the reach, so the rest of the path goes elsewhere.
            rw [reach_cons_of_short short, reach_cons_of_short short, List.prefix_cons_inj] at apart
            have inside := apart.resolve_left (List.cons_ne_nil _ _)
            rw [glance_putEntry_self short, ih (.inr inside), glance_of_short short]
            cases entries.lookup first with
            | some below => rfl
            | none =>
              refine glance_emptyDirectory_of_reach fun nothing => inside ?_
              rw [nothing]
              exact List.nil_prefix
          · exact glance_putEntry_of_ne same ..

/-- When the directories could be made, they are there. -/
theorem glance_of_makeDirectories (made : tree.makeDirectories names = (.ok (), after)) :
    after.glance names = .ok none := by
  induction names generalizing tree after with
  | nil =>
    cases tree with
    | file bytes => cases made
    | directory entries =>
      cases made
      rfl
  | cons name rest ih =>
    cases tree with
    | file bytes => cases made
    | directory entries =>
      cases short : isShort name with
      | false =>
        rw [makeDirectories_of_long short] at made
        cases made
      | true =>
        rw [makeDirectories_of_short short] at made
        obtain ⟨done, rfl⟩ := Prod.mk.inj made
        rw [glance_putEntry_self short]
        exact ih (Prod.ext done rfl)

/-- The directories on the way to a place for a file can be made. -/
theorem makeDirectories_of_mayHoldFile (short : ∀ name ∈ names ++ [last], isShort name = true)
    (room : tree.MayHoldFile (names ++ [last])) : (tree.makeDirectories names).1 = .ok () := by
  have isDirectory {tree : FileTree} {name : String} {rest : List String}
      (room : tree.MayHoldFile (name :: rest)) : ∃ entries, tree = .directory entries := by
    cases tree with
    | directory entries => exact ⟨entries, rfl⟩
    | file bytes => rcases room with missing | ⟨_, held⟩ <;> cases ‹_›
  induction names generalizing tree with
  | nil =>
    obtain ⟨entries, rfl⟩ := isDirectory room
    rfl
  | cons name rest ih =>
    obtain ⟨entries, rfl⟩ := isDirectory room
    rw [List.cons_append, List.forall_mem_cons] at short
    rw [makeDirectories_of_short short.1]
    refine ih short.2 ?_
    unfold MayHoldFile at room
    rw [List.cons_append, glance_of_short short.1] at room
    cases found : entries.lookup name with
    | some below => rwa [found] at room
    | none =>
      -- What is made for a missing name is empty, and there is room in it.
      refine .inl (glance_emptyDirectory_of_reach ?_)
      rw [reach_eq_self short.2]
      exact List.append_ne_nil_of_right_ne_nil rest (List.cons_ne_nil last [])

/-- Where there was nothing before, every path along the directories leads to one or is given up
at a name that is too long. -/
theorem glance_made_ne_missingFile (within : reach path <+: reach names) :
    (emptyDirectory.makeDirectories names).2.glance path ≠ .error .missingFile := by
  unfold emptyDirectory
  induction names generalizing path with
  | nil => exact glance_ne_missingFile_of_reach (List.prefix_nil.mp within) []
  | cons name rest ih =>
    -- A name that is too long ends the making, and no path within reach goes past it.
    cases short : isShort name with
    | false =>
      rw [reach_cons_of_long short] at within
      rw [makeDirectories_of_long short]
      exact glance_ne_missingFile_of_reach (List.prefix_nil.mp within) []
    | true =>
      rw [makeDirectories_of_short short]
      rw [reach_cons_of_short short, List.prefix_cons_iff] at within
      rcases within with nothing | ⟨more, follows, inside⟩
      · exact glance_ne_missingFile_of_reach nothing _
      · cases path with
        | nil => cases follows
        | cons first path =>
          cases shortToo : isShort first with
          | false =>
            rw [reach_cons_of_long shortToo] at follows
            cases follows
          | true =>
            rw [reach_cons_of_short shortToo] at follows
            obtain ⟨rfl, rfl⟩ := List.cons.inj follows
            rw [glance_putEntry_self short]
            exact ih inside

/-! ## Putting a file -/

/-- A file that is put into a directory shows only at its path and below. -/
theorem glance_put_of_not_prefix (inside : tree.glance front = .ok none)
    (apart : ¬ front ++ [last] <+: path) (bytes : Bytes) :
    (tree.put bytes (front ++ [last])).glance path = tree.glance path := by
  induction front generalizing tree path with
  | nil =>
    cases tree with
    | file held => cases inside
    | directory entries =>
      cases path with
      | nil => rfl
      | cons first more =>
        refine glance_putEntry_of_ne (fun same => apart ?_) ..
        rw [same]
        exact List.prefix_append [last] more
  | cons name front ih =>
    obtain ⟨entries, below, rfl, short, found, deeper⟩ := lookup_of_glance inside
    rw [List.cons_append, put, found]
    cases path with
    | nil => rfl
    | cons first more =>
      -- Below another entry nothing changes, and below this one the rest of the path decides.
      by_cases same : first = name
      · subst same
        rw [List.cons_append, List.prefix_cons_inj] at apart
        rw [glance_putEntry_self short, glance_of_short short, found]
        exact ih deeper apart
      · exact glance_putEntry_of_ne same ..

theorem glance_put_self (inside : tree.glance front = .ok none) (short : isShort last = true)
    (bytes : Bytes) :
    (tree.put bytes (front ++ [last])).glance (front ++ [last]) = .ok (some bytes) := by
  induction front generalizing tree with
  | nil =>
    cases tree with
    | file held => cases inside
    | directory entries => exact glance_putEntry_self short ..
  | cons name front ih =>
    obtain ⟨entries, below, rfl, shortToo, found, deeper⟩ := lookup_of_glance inside
    rw [List.cons_append, put, found, glance_putEntry_self shortToo]
    exact ih deeper

/-! ## Erasing a file -/

theorem erase_cons (entries : List (String × FileTree)) (name next : String)
    (rest : List String) :
    (directory entries).erase (name :: next :: rest) =
      match entries.lookup name with
      | some tree => directory (putEntry entries name (tree.erase (next :: rest)))
      | none => directory entries := by
  cases found : entries.lookup name <;> simp only [erase, found]

/-- What is erased shows only at its path and below. -/
theorem glance_erase_of_not_prefix (apart : ¬ names <+: path) :
    (tree.erase names).glance path = tree.glance path := by
  induction names generalizing tree path with
  | nil => exact absurd List.nil_prefix apart
  | cons name rest ih =>
    cases tree with
    | file bytes => cases rest <;> rfl
    | directory entries =>
      cases path with
      | nil =>
        cases rest with
        | nil => rfl
        | cons next rest =>
          rw [erase_cons]
          cases entries.lookup name <;> rfl
      | cons first more =>
        cases rest with
        | nil =>
          have other : first ≠ name := by
            rintro rfl
            exact apart (List.prefix_append [first] more)
          exact glance_congr (by rw [lookup_eraseEntry, if_neg other]) more
        | cons next rest =>
          rw [erase_cons]
          cases found : entries.lookup name with
          | none => rfl
          | some below =>
            -- Only the entry on the way is put back, with less below it.
            by_cases same : first = name
            · subst same
              rw [List.prefix_cons_inj] at apart
              dsimp only
              cases short : isShort first with
              | true => rw [glance_putEntry_self short, glance_of_short short, found, ih apart]
              | false => rw [glance_of_long short, glance_of_long short]
            · exact glance_putEntry_of_ne same ..

theorem glance_erase_self (given : names ≠ []) {seen : Option Bytes}
    (held : tree.glance names = .ok seen) :
    (tree.erase names).glance names = .error .missingFile := by
  induction names generalizing tree with
  | nil => exact absurd rfl given
  | cons name rest ih =>
    obtain ⟨entries, below, rfl, short, found, deeper⟩ := lookup_of_glance held
    cases rest with
    | nil =>
      rw [erase, glance_of_short short, lookup_eraseEntry, if_pos rfl]
    | cons next rest =>
      rw [erase_cons, found]
      dsimp only
      rw [glance_putEntry_self short]
      exact ih (List.cons_ne_nil _ _) deeper

end FileTree

end ParallelLoop
