/-
# Keys that keep out of each other's way

A storage in files looks up the names of a key, so two keys can be told apart as texts and still
meet in the tree: they may name the same file, or one may need a directory where the other has its
file. `ScratchPath.Meets` says when an update under one key can show under another, and it says no
more than that (`read_write_ne_of_meets`).

Keys that do not meet, and that a file system takes for files, are served as by a storage in memory
(`simulates`): writing makes the directories that are missing and never fails, and a key under which
there is nothing is reported as not found by both. Only the text of this report differs. A buffer
over the files then cannot be told from one over the memory, and keeps the keys apart as that one
does.
-/

import ParallelLoop.Proofs.Buffer.Confinement
import ParallelLoop.Proofs.Buffer.FileTree
import ParallelLoop.Proofs.Buffer.Simulation

namespace ParallelLoop

open FileTree (isShort reach)

/-! ## Paths of keys -/

namespace ScratchPath

variable {root : String} {path : ScratchPath} {key : String}

theorem filter_dropWhile (pieces : List String) :
    (pieces.dropWhile fun piece => !isName piece).filter isName = pieces.filter isName := by
  induction pieces with
  | nil => rfl
  | cons piece rest ih =>
    cases named : isName piece with
    | true => rw [List.dropWhile_cons_of_neg (by rw [named]; nofun)]
    | false =>
      rw [List.dropWhile_cons_of_pos (by rw [named]; rfl), ih,
        List.filter_cons_of_neg (by rw [named]; nofun)]

theorem filter_drop_dropWhile (pieces : List String) :
    ((pieces.dropWhile fun piece => !isName piece).drop 1).filter isName =
      (pieces.filter isName).tail := by
  induction pieces with
  | nil => rfl
  | cons piece rest ih =>
    cases named : isName piece with
    | true =>
      rw [List.dropWhile_cons_of_neg (by rw [named]; nofun), List.filter_cons_of_pos named]
      rfl
    | false =>
      rw [List.dropWhile_cons_of_pos (by rw [named]; rfl), ih,
        List.filter_cons_of_neg (by rw [named]; nofun)]

/-- The directory of a path is where all names but the last one lead. -/
theorem names_parent (path : ScratchPath) : path.parent.names = path.names.dropLast := by
  rw [names, names, parent]
  dsimp only
  rw [List.filter_reverse, filter_dropWhile, filter_drop_dropWhile, List.filter_reverse,
    List.tail_reverse, List.reverse_reverse]

theorem pieces_parent_prefix (path : ScratchPath) : path.parent.pieces <+: path.pieces := by
  rw [parent]
  dsimp only
  have back : path.pieces = path.pieces.reverse.reverse := (List.reverse_reverse _).symm
  rw [back, List.reverse_prefix, ← back]
  exact (List.dropWhile_suffix _).trans ((List.drop_suffix 1 _).trans (List.dropWhile_suffix _))

/-- A path that ends with a name has one. -/
theorem names_ne_nil (named : (ofKey key).ending = .name) : (ofKey key).names ≠ [] := by
  intro none
  obtain nothing | ⟨front, last, pieces_eq⟩ := List.eq_nil_or_concat (ofKey key).pieces
  · exact pieces_ne_nil key nothing
  · -- The last piece is no name, so it is empty or a dot, and the path ends otherwise.
    have silent : isName last = false := by
      rw [Bool.eq_false_iff]
      exact List.filter_eq_nil_iff.mp none last (by rw [pieces_eq]; simp)
    unfold ending at named
    rw [pieces_eq] at named
    by_cases slash : last = ""
    · rw [slash, List.concat_eq_append, List.getLast?_concat] at named
      split at named <;> simp at named
    · have dot : last = "." := by simpa [isName, slash] using silent
      simp [dot] at named

/-- What is written of the first pieces is where all of them begin. -/
theorem exists_intercalate_append {front pieces : List String} (start : front <+: pieces)
    (given : front ≠ []) : ∃ back, "/".intercalate pieces = "/".intercalate front ++ back := by
  induction front generalizing pieces with
  | nil => exact absurd rfl given
  | cons piece rest ih =>
    obtain ⟨back, rfl⟩ := start
    cases rest with
    | nil =>
      cases back with
      | nil => exact ⟨"", String.append_empty.symm⟩
      | cons next back =>
        refine ⟨"/" ++ "/".intercalate (next :: back), ?_⟩
        rw [List.singleton_append, String.intercalate_cons_cons, String.append_assoc]
        rfl
    | cons next rest =>
      obtain ⟨more, more_eq⟩ := ih (List.prefix_append (next :: rest) back) nofun
      refine ⟨more, ?_⟩
      rw [List.cons_append] at more_eq
      rw [List.cons_append, List.cons_append, String.intercalate_cons_cons,
        String.intercalate_cons_cons, more_eq]
      exact (String.append_assoc ..).symm

theorem text_ofKey (key : String) : (ofKey key).text = key := by
  rw [text, ← String.toList_inj, String.toList_intercalate, toList_eq_intercalate key]
  rfl

/-- What an accepted key resolves to is the path that leads where the key says. -/
theorem resolve_eq_under (accepted : accepts key = true) (root : String) :
    resolve root key = .ok ((ofKey key).under root) := by
  rw [resolve, if_pos accepted, under, if_neg (pieces_ne_nil key), text_ofKey]

/-- What is joined to a directory stands behind it. -/
theorem exists_join_append {text : String} (relative : text.toList.head? ≠ some '/')
    (root : String) : ∃ back, join root text = root ++ back := by
  rw [join, if_neg relative]
  split
  · exact ⟨text, rfl⟩
  · exact ⟨"/" ++ text, String.append_assoc ..⟩

theorem join_append {text back : String} (relative : (text ++ back).toList.head? ≠ some '/')
    (root : String) : join root (text ++ back) = join root text ++ back := by
  have front : text.toList.head? ≠ some '/' := by
    intro slash
    rw [String.toList_append, List.head?_append, slash] at relative
    exact relative rfl
  rw [join, join, if_neg relative, if_neg front]
  split
  · exact (String.append_assoc ..).symm
  · exact (String.append_assoc ..).symm

/-- The way to a path begins with the way to its directory. -/
theorem exists_under_append (relative : path.text.toList.head? ≠ some '/') (root : String) :
    ∃ back, path.under root = path.parent.under root ++ back := by
  by_cases top : path.parent.pieces = []
  · rw [under, under, if_pos top]
    split
    · exact ⟨"", String.append_empty.symm⟩
    · exact exists_join_append relative root
  · have start := path.pieces_parent_prefix
    have given : path.pieces ≠ [] := by
      intro none
      rw [none] at start
      exact top (List.prefix_nil.mp start)
    obtain ⟨back, text_eq⟩ := exists_intercalate_append start top
    have split : path.text = path.parent.text ++ back := text_eq
    rw [split] at relative
    exact ⟨back, by rw [under, under, if_neg given, if_neg top, split, join_append relative]⟩

theorem checkPath_eq_ok_iff : FileStorage.checkPath root path = .ok () ↔
    '\x00' ∉ (path.under root).toList ∧
      (path.under root).utf8ByteSize ≤ FileStorage.maxPathBytes := by
  unfold FileStorage.checkPath
  dsimp only
  by_cases ends : '\x00' ∈ (path.under root).toList
  · simp [ends]
  · by_cases wide : FileStorage.maxPathBytes < (path.under root).utf8ByteSize
    · simp [ends, wide]
    · simp [ends, wide, Nat.not_lt.mp wide]

/-- The file system takes the directory of a path that it takes. -/
theorem checkPath_parent (relative : path.text.toList.head? ≠ some '/')
    (taken : FileStorage.checkPath root path = .ok ()) :
    FileStorage.checkPath root path.parent = .ok () := by
  obtain ⟨back, way⟩ := exists_under_append relative root
  rw [checkPath_eq_ok_iff, way, String.toList_append, String.utf8ByteSize_append] at taken
  rw [checkPath_eq_ok_iff]
  exact ⟨fun there => taken.1 (List.mem_append_left _ there),
    Nat.le_trans (Nat.le_add_right ..) taken.2⟩

/-- An accepted key is no path from the root of the file system. -/
theorem relative_of_accepts (accepted : accepts key = true) :
    (ofKey key).text.toList.head? ≠ some '/' := by
  rw [text_ofKey]
  exact (accepts_iff.mp accepted).2.1

/-- The file system takes the path below this directory for one of a file. -/
structure IsFilePath (root : String) (path : ScratchPath) : Prop where
  taken : FileStorage.checkPath root path = .ok ()
  ends : path.ending = .name
  short : ∀ name ∈ path.names, isShort name = true

/-- Below this directory, an update under one path can show under another: where there can be a file
of the first path, the other path leads to it or beyond; or writing under the first path makes
directories along all of the other path that is followed. -/
structure Meets (root : String) (path other : ScratchPath) : Prop where
  taken : FileStorage.checkPath root other = .ok ()
  way : path.IsFilePath root ∧ path.names <+: other.names ∨
    FileStorage.checkPath root path.parent = .ok () ∧ reach other.names ≠ [] ∧
      reach other.names <+: reach path.names.dropLast

instance (root : String) (path : ScratchPath) : Decidable (path.IsFilePath root) :=
  decidable_of_iff (FileStorage.checkPath root path = .ok () ∧ path.ending = .name ∧
      ∀ name ∈ path.names, isShort name = true)
    ⟨fun ⟨taken, ends, short⟩ => ⟨taken, ends, short⟩,
      fun ⟨taken, ends, short⟩ => ⟨taken, ends, short⟩⟩

instance (root : String) (path other : ScratchPath) : Decidable (path.Meets root other) :=
  decidable_of_iff (FileStorage.checkPath root other = .ok () ∧
      (path.IsFilePath root ∧ path.names <+: other.names ∨
        FileStorage.checkPath root path.parent = .ok () ∧ reach other.names ≠ [] ∧
          reach other.names <+: reach path.names.dropLast))
    ⟨fun ⟨taken, way⟩ => ⟨taken, way⟩, fun ⟨taken, way⟩ => ⟨taken, way⟩⟩

end ScratchPath

/-! ## Calls by what is seen -/

namespace FileStorage

variable {storage after : FileStorage} {path other : ScratchPath} {key : String} {bytes : Bytes}

/-- Reading shows what is seen at the path. -/
theorem readFile_of_glance (taken : checkPath storage.rootPath path = .ok ()) :
    storage.readFile path =
      match storage.root.glance path.names with
      | .ok (some bytes) => if path.ending = .name then .ok bytes else .error .notADirectory
      | .ok none => .error .isADirectory
      | .error fault => .error fault := by
  rw [readFile, find, taken, FileTree.glance]
  cases found : storage.root.find path.names with
  | error fault => rfl
  | ok tree => cases tree <;> rfl

theorem readFile_of_refused {fault : StorageFault}
    (refused : checkPath storage.rootPath path = .error fault) :
    storage.readFile path = .error fault := by
  rw [readFile, find, refused]
  rfl

/-- A path is read alike in two states of a directory where the same is seen at it. -/
theorem readFile_congr (place : after.rootPath = storage.rootPath)
    (same : checkPath storage.rootPath other = .ok () →
      after.root.glance other.names = storage.root.glance other.names) :
    after.readFile other = storage.readFile other := by
  cases taken : checkPath storage.rootPath other with
  | error fault => rw [readFile_of_refused taken, readFile_of_refused (place ▸ taken)]
  | ok _ => rw [readFile_of_glance taken, readFile_of_glance (place ▸ taken), same taken]

/-- A file that can be read. -/
theorem readFile_eq_ok_iff : storage.readFile path = .ok bytes ↔
    checkPath storage.rootPath path = .ok () ∧ path.ending = .name ∧
      storage.root.glance path.names = .ok (some bytes) := by
  cases taken : checkPath storage.rootPath path with
  | error fault => simp [readFile_of_refused taken]
  | ok _ =>
    rw [readFile_of_glance taken]
    split
    next found => by_cases named : path.ending = .name <;> simp [named, found]
    next found => simp [found]
    next found => simp [found]

theorem readFile_eq_missingFile_iff (taken : checkPath storage.rootPath path = .ok ()) :
    storage.readFile path = .error .missingFile ↔
      storage.root.glance path.names = .error .missingFile := by
  rw [readFile_of_glance taken]
  split
  next found => by_cases named : path.ending = .name <;> simp [named, found]
  next found => simp [found]
  next found => simp [found]

@[simp] theorem rootPath_makeParent (storage : FileStorage) (path : ScratchPath) :
    (storage.makeParent path).2.rootPath = storage.rootPath := by
  rw [makeParent]
  split <;> rfl

/-- Making the directories that lead to a path shows only at paths along them. -/
theorem glance_makeParent {names : List String}
    (apart : checkPath storage.rootPath path.parent = .ok () → reach names ≠ [] →
      ¬ reach names <+: reach path.names.dropLast) :
    (storage.makeParent path).2.root.glance names = storage.root.glance names := by
  rw [makeParent]
  cases taken : checkPath storage.rootPath path.parent with
  | error fault => rfl
  | ok _ =>
    dsimp only
    rw [path.names_parent]
    refine FileTree.glance_makeDirectories _ ?_
    by_cases nothing : reach names = []
    · exact .inl nothing
    · exact .inr (apart taken nothing)

theorem glance_of_makeParent (made : storage.makeParent path = (.ok (), after)) :
    after.root.glance path.names.dropLast = .ok none := by
  rw [makeParent] at made
  cases taken : checkPath storage.rootPath path.parent with
  | error fault =>
    rw [taken] at made
    cases made
  | ok _ =>
    rw [taken] at made
    obtain ⟨done, rfl⟩ := Prod.mk.inj made
    rw [← path.names_parent]
    exact FileTree.glance_of_makeDirectories (Prod.ext done rfl)

theorem writeFault?_eq_none_iff : storage.writeFault? path = none ↔
    checkPath storage.rootPath path = .ok () ∧ path.ending = .name ∧
      storage.root.MayHoldFile path.names := by
  rw [writeFault?, FileTree.MayHoldFile, FileTree.glance]
  cases taken : checkPath storage.rootPath path with
  | error fault => simp
  | ok _ =>
    cases ends : path.ending with
    | slash => simp
    | name | dot =>
      dsimp only
      cases found : storage.root.find path.names with
      | ok tree => cases tree <;> simp
      | error fault => cases fault <;> simp

/-! ## Updates -/

/-- Only what can be a file is written. -/
theorem isFilePath_of_write (made : storage.makeParent (.ofKey key) = (.ok (), after))
    (accepted : after.writeFault? (.ofKey key) = none) :
    (ScratchPath.ofKey key).IsFilePath storage.rootPath := by
  obtain ⟨taken, ends, room⟩ := writeFault?_eq_none_iff.mp accepted
  have place := storage.rootPath_makeParent (.ofKey key)
  rw [made] at place
  rw [show after.rootPath = storage.rootPath from place] at taken
  have inside := glance_of_makeParent made
  refine ⟨taken, ends, ?_⟩
  have split := List.dropLast_append_getLast (ScratchPath.names_ne_nil ends)
  rw [← split] at room ⊢
  rw [List.forall_mem_append, List.forall_mem_singleton]
  refine ⟨FileTree.short_of_glance inside, ?_⟩
  -- The last name is looked up in a directory that is there, which tells when it is too long.
  by_contra long
  have looked := FileTree.glance_append_of_long inside (Bool.eq_false_iff.mpr long)
  rcases room with missing | ⟨_, held⟩
  · rw [looked] at missing
    cases missing
  · rw [looked] at held
    cases held

/-- Beside the directories that are made, a write shows only at the path of its file and below. -/
theorem glance_writeFile_of_apart {names : List String} (storage : FileStorage)
    (apart : (ScratchPath.ofKey key).IsFilePath storage.rootPath →
      ¬ (ScratchPath.ofKey key).names <+: names) (bytes : Bytes) :
    (storage.writeFile (.ofKey key) bytes).2.root.glance names =
      (storage.makeParent (.ofKey key)).2.root.glance names := by
  rw [writeFile]
  rcases made : storage.makeParent (.ofKey key) with ⟨outcome, after⟩
  cases outcome with
  | error fault => rfl
  | ok _ =>
    dsimp only
    cases refused : after.writeFault? (.ofKey key) with
    | some fault => rfl
    | none =>
      have isFile := isFilePath_of_write made refused
      have split := List.dropLast_append_getLast (ScratchPath.names_ne_nil isFile.ends)
      dsimp only
      rw [← split]
      refine FileTree.glance_put_of_not_prefix (glance_of_makeParent made) ?_ bytes
      rw [split]
      exact apart isFile

@[simp] theorem rootPath_writeFile (storage : FileStorage) (path : ScratchPath) (bytes : Bytes) :
    (storage.writeFile path bytes).2.rootPath = storage.rootPath := by
  have place := storage.rootPath_makeParent path
  rw [writeFile]
  split
  next made => rwa [made] at place
  next made =>
    rw [made] at place
    split <;> exact place

/-- A write shows only at paths that its own path meets. -/
theorem glance_writeFile (storage : FileStorage)
    (taken : checkPath storage.rootPath other = .ok ())
    (apart : ¬ (ScratchPath.ofKey key).Meets storage.rootPath other) (bytes : Bytes) :
    (storage.writeFile (.ofKey key) bytes).2.root.glance other.names =
      storage.root.glance other.names := by
  rw [storage.glance_writeFile_of_apart fun isFile below => apart ⟨taken, .inl ⟨isFile, below⟩⟩]
  exact glance_makeParent fun parent given along => apart ⟨taken, .inr ⟨parent, given, along⟩⟩

@[simp] theorem rootPath_deleteFile (storage : FileStorage) (path : ScratchPath) :
    (storage.deleteFile path).2.rootPath = storage.rootPath := by
  rw [deleteFile]
  split <;> rfl

/-- Deleting shows only at paths that its own path meets. -/
theorem glance_deleteFile (storage : FileStorage)
    (taken : checkPath storage.rootPath other = .ok ())
    (apart : ¬ path.Meets storage.rootPath other) :
    (storage.deleteFile path).2.root.glance other.names = storage.root.glance other.names := by
  rw [deleteFile]
  split
  next held =>
    obtain ⟨takenToo, ends, seen⟩ := readFile_eq_ok_iff.mp held
    exact FileTree.glance_erase_of_not_prefix fun below =>
      apart ⟨taken, .inl ⟨⟨takenToo, ends, FileTree.short_of_glance seen⟩, below⟩⟩
  next => rfl
  next => rfl

/-- Where there is room for a file, it is written. -/
theorem writeFile_of_mayHoldFile (accepted : ScratchPath.accepts key = true)
    (isFile : (ScratchPath.ofKey key).IsFilePath storage.rootPath)
    (room : storage.root.MayHoldFile (ScratchPath.ofKey key).names) (bytes : Bytes) :
    ∃ after, storage.writeFile (.ofKey key) bytes = (.ok (), after) ∧
      after.root.glance (ScratchPath.ofKey key).names = .ok (some bytes) := by
  have given := ScratchPath.names_ne_nil isFile.ends
  have split := List.dropLast_append_getLast given
  have made : (storage.makeParent (.ofKey key)).1 = .ok () := by
    have short := isFile.short
    have relative := ScratchPath.relative_of_accepts accepted
    rw [makeParent, ScratchPath.checkPath_parent relative isFile.taken]
    dsimp only
    rw [ScratchPath.names_parent]
    rw [← split] at room short
    exact FileTree.makeDirectories_of_mayHoldFile short room
  have same : (storage.makeParent (.ofKey key)).2.root.glance (ScratchPath.ofKey key).names =
      storage.root.glance (ScratchPath.ofKey key).names :=
    glance_makeParent fun _ _ => FileTree.not_reach_prefix_dropLast isFile.short given
  have place := storage.rootPath_makeParent (.ofKey key)
  rcases making : storage.makeParent (.ofKey key) with ⟨outcome, between⟩
  rw [making] at made same place
  dsimp only at made same place
  subst made
  -- Making the parents left the place of the file as it was, so it may hold one still.
  have allowed : between.writeFault? (.ofKey key) = none := by
    rw [writeFault?_eq_none_iff, FileTree.MayHoldFile, same, place]
    exact ⟨isFile.taken, isFile.ends, room⟩
  have last := isFile.short _ (List.getLast_mem given)
  have put := FileTree.glance_put_self (glance_of_makeParent making) last bytes
  rw [split] at put
  exact ⟨_, by rw [writeFile, making]; dsimp only; rw [allowed], put⟩

/-! ## Keys that meet -/

theorem ofKey?_of_accepts (accepted : ScratchPath.accepts key = true) :
    ScratchPath.ofKey? key = some (.ofKey key) := if_pos accepted

theorem write_eq (accepted : ScratchPath.accepts key = true) (storage : FileStorage)
    (bytes : Bytes) :
    BlockStorage.write storage key bytes = storage.writeFile (.ofKey key) bytes := by
  simp only [BlockStorage.write, ofKey?_of_accepts accepted]

theorem read_eq (accepted : ScratchPath.accepts key = true) (storage : FileStorage) :
    BlockStorage.read storage key = (storage.readFile (.ofKey key), storage) := by
  simp only [BlockStorage.read, ofKey?_of_accepts accepted]

theorem delete_eq (accepted : ScratchPath.accepts key = true) (storage : FileStorage) :
    BlockStorage.delete storage key = storage.deleteFile (.ofKey key) := by
  simp only [BlockStorage.delete, ofKey?_of_accepts accepted]

/-- Keys that meet do get in each other's way: in an empty directory, a write of the one changes
what reading the other comes to. -/
theorem read_write_ne_of_meets {root key other : String}
    (accepted : ScratchPath.accepts key = true) (acceptedOther : ScratchPath.accepts other = true)
    (meets : (ScratchPath.ofKey key).Meets root (.ofKey other)) (bytes : Bytes) :
    (BlockStorage.read (BlockStorage.write (FileStorage.empty root) key bytes).2 other).1 ≠
      (BlockStorage.read (FileStorage.empty root) other).1 := by
  obtain ⟨taken, way⟩ := meets
  have allowed : checkPath (empty root).rootPath (.ofKey other) = .ok () := taken
  -- Before the write the first name of the other path is missing.
  have lookedUp (isFile : (ScratchPath.ofKey key).IsFilePath root) :
      reach (ScratchPath.ofKey key).names ≠ [] := by
    rw [FileTree.reach_eq_self isFile.short]
    exact ScratchPath.names_ne_nil isFile.ends
  have followed : reach (ScratchPath.ofKey other).names ≠ [] := by
    rcases way with ⟨isFile, further, names_eq⟩ | ⟨-, given, -⟩
    · rw [← names_eq, FileTree.reach_append isFile.short]
      exact List.append_ne_nil_of_left_ne_nil (ScratchPath.names_ne_nil isFile.ends) _
    · exact given
  have before : (BlockStorage.read (empty root) other).1 = .error .missingFile := by
    rw [read_eq acceptedOther, readFile_eq_missingFile_iff allowed]
    exact FileTree.glance_emptyDirectory_of_reach followed
  rw [← (empty root).rootPath_writeFile (.ofKey key) bytes] at allowed
  rw [before, read_eq acceptedOther, write_eq accepted, ne_eq,
    readFile_eq_missingFile_iff allowed]
  by_cases file : (ScratchPath.ofKey key).IsFilePath root ∧
      (ScratchPath.ofKey key).names <+: (ScratchPath.ofKey other).names
  · -- The other path leads to the new file or ends at it.
    obtain ⟨isFile, further, names_eq⟩ := file
    have room : (empty root).root.MayHoldFile (ScratchPath.ofKey key).names :=
      .inl (FileTree.glance_emptyDirectory_of_reach (lookedUp isFile))
    obtain ⟨after, written, held⟩ := writeFile_of_mayHoldFile accepted isFile room bytes
    rw [written, ← names_eq]
    rcases FileTree.glance_append_of_file held further with same | stopped
    · rw [same]
      exact nofun
    · rw [stopped]
      exact nofun
  · -- The other path leads along the new directories, and these stay when the write goes on.
    obtain ⟨parent, -, along⟩ := way.resolve_left file
    rw [(empty root).glance_writeFile_of_apart fun isFile below => file ⟨isFile, below⟩]
    rw [makeParent, show checkPath (empty root).rootPath _ = _ from parent,
      ScratchPath.names_parent]
    exact FileTree.glance_made_ne_missingFile along

/-! ## Files like memory -/

/-- Faults of one kind, which only their texts tell apart. -/
def SameKind (fault other : StorageFault) : Prop := fault.kindName = other.kindName

/-- Keys for files below a directory, of which none meets another one. -/
structure AreSeparate (root : String) (keys : String → Prop) : Prop where
  accepted : ∀ key, keys key → ScratchPath.accepts key = true
  isFilePath : ∀ key, keys key → (ScratchPath.ofKey key).IsFilePath root
  apart : ∀ key other, keys key → keys other → key ≠ other →
    ¬ (ScratchPath.ofKey key).Meets root (.ofKey other)

/-- The files are below this directory, and where the keys lead there are files with the bytes in
memory, or there is room for them. -/
structure Serves (root : String) (keys : String → Prop) (files : FileStorage)
    (memory : MemoryStorage) : Prop where
  place : files.rootPath = root
  seen : ∀ key, keys key → files.root.glance (ScratchPath.ofKey key).names =
    match memory.get? key with
    | some bytes => .ok (some bytes)
    | none => .error .missingFile

section Simulation

variable {root : String} {keys : String → Prop} {files : FileStorage} {memory : MemoryStorage}

theorem Serves.mayHoldFile (serves : Serves root keys files memory) (allowed : keys key) :
    files.root.MayHoldFile (ScratchPath.ofKey key).names := by
  have seen := serves.seen key allowed
  cases found : memory.get? key with
  | none =>
    rw [found] at seen
    exact .inl seen
  | some bytes =>
    rw [found] at seen
    exact .inr ⟨bytes, seen⟩

variable (separate : AreSeparate root keys)
include separate

/-- An update that shows at no other key. -/
theorem Serves.update (serves : Serves root keys files memory) (allowed : keys key)
    {memoryAfter : MemoryStorage} (place : after.rootPath = files.rootPath) (found : Option Bytes)
    (own : after.root.glance (ScratchPath.ofKey key).names =
      match found with
      | some bytes => .ok (some bytes)
      | none => .error .missingFile)
    (others : ∀ {other}, checkPath root other = .ok () →
      ¬ (ScratchPath.ofKey key).Meets root other →
      after.root.glance other.names = files.root.glance other.names)
    (stored : ∀ other, memoryAfter.get? other =
      if other = key then found else memory.get? other) : Serves root keys after memoryAfter where
  place := place.trans serves.place
  seen := by
    intro other allowedOther
    rw [stored]
    by_cases same : other = key
    · rw [if_pos same, same]
      exact own
    · rw [if_neg same, others (separate.isFilePath other allowedOther).taken
        (separate.apart key other allowed allowedOther (Ne.symm same))]
      exact serves.seen other allowedOther

theorem Serves.readFile_eq (serves : Serves root keys files memory) (allowed : keys key) :
    files.readFile (.ofKey key) =
      match memory.get? key with
      | some bytes => .ok bytes
      | none => .error .missingFile := by
  have isFile := separate.isFilePath key allowed
  rw [readFile_of_glance (serves.place ▸ isFile.taken), serves.seen key allowed]
  cases memory.get? key with
  | none => rfl
  | some bytes => exact if_pos isFile.ends

/-- Under separate keys, files are kept as memory is. -/
theorem simulates : BlockStorage.Simulates keys SameKind (Serves root keys) where
  write {files memory} key bytes allowed serves := by
    have place := files.rootPath_writeFile (.ofKey key) bytes
    have isFile := separate.isFilePath key allowed
    rw [← serves.place] at isFile
    obtain ⟨after, written, held⟩ := writeFile_of_mayHoldFile (separate.accepted key allowed)
      isFile (serves.mayHoldFile allowed) bytes
    rw [write_eq (separate.accepted key allowed), written]
    rw [written] at place
    refine ⟨.ok (), serves.update separate allowed place (some bytes) held ?_
      (memory.get?_insert key · bytes)⟩
    intro other taken apart
    rw [← serves.place] at taken apart
    have same := files.glance_writeFile taken apart bytes
    rwa [written] at same
  read {files memory} key allowed serves := by
    rw [read_eq (separate.accepted key allowed), serves.readFile_eq separate allowed]
    cases found : memory.get? key with
    | none =>
      simp only [BlockStorage.read, found]
      exact ⟨.error rfl, serves⟩
    | some bytes =>
      simp only [BlockStorage.read, found]
      exact ⟨.ok bytes, serves⟩
  delete {files memory} key allowed serves := by
    have place := files.rootPath_deleteFile (.ofKey key)
    have others {other : ScratchPath} (taken : checkPath root other = .ok ())
        (apart : ¬ (ScratchPath.ofKey key).Meets root other) :=
      files.glance_deleteFile (serves.place.symm ▸ taken) (serves.place.symm ▸ apart)
    have told := serves.readFile_eq separate allowed
    have seen := serves.seen key allowed
    have removed := memory.get?_erase key
    rw [delete_eq (separate.accepted key allowed)]
    rw [deleteFile] at place others ⊢
    -- There is a file to erase just when the memory has bytes under the key.
    cases found : memory.get? key with
    | none =>
      rw [found] at told seen
      rw [told] at place others ⊢
      simp only [BlockStorage.delete, found]
      exact ⟨.ok false, serves.update separate allowed place none seen others removed⟩
    | some bytes =>
      rw [found] at told seen
      rw [told] at place others ⊢
      simp only [BlockStorage.delete, found]
      have given := ScratchPath.names_ne_nil (separate.isFilePath key allowed).ends
      exact ⟨.ok true, serves.update separate allowed place none
        (FileTree.glance_erase_self given seen) others removed⟩

/-- Over files in which nothing stands at the keys, the memory is blank. -/
theorem serves_empty (place : files.rootPath = root)
    (blank : ∀ key, keys key → (BlockStorage.read files key).1 = .error .missingFile) :
    Serves root keys files MemoryStorage.empty where
  place := place
  seen := by
    intro key allowed
    have missing := blank key allowed
    rw [read_eq (separate.accepted key allowed)] at missing
    have taken := (separate.isFilePath key allowed).taken
    exact (readFile_eq_missingFile_iff (place ▸ taken)).mp missing

end Simulation

/-- Wherever the scratch directory is, an update under one key changes what is read under another
only if their paths meet. Whatever is asked of a storage in files under separate keys, nothing standing
there at first, comes to the same as in memory. So does whatever is done with a buffer over such a
storage, and calls under one of the keys do not show in what is read under another one. -/
theorem separate_keys_like_memory {α : Type} [Quantity α] :
    (∀ key other, ScratchPath.accepts key = true → ScratchPath.accepts other = true →
      ∀ storage : FileStorage, ¬ (ScratchPath.ofKey key).Meets storage.rootPath (.ofKey other) →
        (∀ bytes, (BlockStorage.read (BlockStorage.write storage key bytes).2 other).1 =
          (BlockStorage.read storage other).1) ∧
        (BlockStorage.read (BlockStorage.delete storage key).2 other).1 =
          (BlockStorage.read storage other).1) ∧
    ∀ keys, ∀ storage : FileStorage, AreSeparate storage.rootPath keys →
      (∀ key, keys key → (BlockStorage.read storage key).1 = .error .missingFile) →
      (∀ requests : List StorageRequest, (∀ request ∈ requests, keys request.key) →
        List.Forall₂ (StorageCall.IsLike SameKind) (BlockStorage.calls storage requests)
          (BlockStorage.calls MemoryStorage.empty requests)) ∧
      ∀ (settings : BufferSettings α) (memory : Nat) (uses : List BufferUse),
        (∀ use ∈ uses, use.IsFor keys) →
        let pool := (BufferPool.new settings memory storage).afterSteps (uses.map BufferUse.step)
        let plain := (BufferPool.new settings memory MemoryStorage.empty).afterSteps
          (uses.map BufferUse.step)
        pool.IsLikeFor keys SameKind plain ∧
          ∀ call : BufferCall, keys call.key → ∀ other, keys other → other ≠ call.key →
            Outcome.Same (Failure.IsLike SameKind)
              ((BufferPool.read other).result (pool.afterCall call)).1
              ((BufferPool.read other).result pool).1 := by
  refine ⟨?_, fun keys storage separate blank => ?_⟩
  · intro key other accepted acceptedOther storage apart
    rw [delete_eq accepted, read_eq acceptedOther, read_eq acceptedOther]
    refine ⟨fun bytes => ?_, readFile_congr (storage.rootPath_deleteFile _) fun taken =>
      storage.glance_deleteFile taken apart⟩
    rw [write_eq accepted, read_eq acceptedOther]
    exact readFile_congr (storage.rootPath_writeFile _ bytes) fun taken =>
      storage.glance_writeFile taken apart bytes
  · have serves := serves_empty separate rfl blank
    have likeMemory := simulates separate
    refine ⟨fun requests allowed => likeMemory.calls serves allowed, ?_⟩
    intro settings memory uses allowed pool plain
    have both : BufferPool.Corresponds keys (Serves storage.rootPath keys) pool plain :=
      (BufferPool.corresponds_new settings memory serves).afterUses likeMemory allowed
    refine ⟨both.isLikeFor likeMemory, fun call allowedCall other allowedOther apart => ?_⟩
    -- The buffer over memory keeps the keys apart, and both buffers are read alike.
    have accounted := BufferPool.afterSteps_isAccounted
      (BufferPool.isAccounted_new settings memory MemoryStorage.empty) (uses.map BufferUse.step)
    have before := (both.isLikeFor likeMemory).read_same other allowedOther
    have after := ((both.afterCall likeMemory allowedCall).isLikeFor likeMemory).read_same other
      allowedOther
    rw [BufferPool.read_afterCall_of_ne MemoryStorage.isReadable accounted apart] at after
    refine after.trans ?_ (before.symm ?_)
    · exact fun _ _ _ => Failure.IsLike.trans fun _ _ _ => by exact Eq.trans
    · exact fun _ _ => Failure.IsLike.symm fun _ _ => by exact Eq.symm

/-- Keys of blocks, one of them with a dot and a further slash. -/
def blockKeys : List String := ["blocks/b_1_1", "./blocks//b_1_2", "c"]

theorem separate_keys_like_memory_blockKeys :
    AreSeparate "/scratch" (· ∈ blockKeys) ∧
    (let requests : List StorageRequest :=
      [.write "blocks/b_1_1" [1], .write "./blocks//b_1_2" [2], .delete "c", .read "blocks/b_1_1"]
    List.Forall₂ (StorageCall.IsLike SameKind)
      (BlockStorage.calls (FileStorage.empty "/scratch") requests)
      (BlockStorage.calls MemoryStorage.empty requests)) ∧
    (let settings : BufferSettings Rat :=
      { fraction := 1, policy := .fifo, pageCache := false, maxEntryBytes := 30 }
    let block : MatrixBlock := { rows := 1, columns := 1, cells := .dense #[7] }
    let pool := (BufferPool.new settings 30 (FileStorage.empty "/scratch")).afterSteps
      ([.start, .call (.write "./blocks//b_1_2" block)].map BufferUse.step)
    Outcome.Same (Failure.IsLike SameKind)
      ((BufferPool.read "./blocks//b_1_2").result
        (pool.afterCall (.delete "blocks/b_1_1"))).1
      ((BufferPool.read "./blocks//b_1_2").result pool).1 ∧
    ((BufferPool.read "./blocks//b_1_2").result pool).1.toOption = some block) := by
  have apart : ∀ key ∈ blockKeys, ∀ other ∈ blockKeys, key ≠ other →
      ¬ (ScratchPath.ofKey key).Meets "/scratch" (.ofKey other) := by decide +kernel
  have separate : AreSeparate "/scratch" (· ∈ blockKeys) :=
    ⟨by decide +kernel, by decide +kernel, fun key other held heldOther =>
      apart key held other heldOther⟩
  have blank : ∀ key ∈ blockKeys,
      (BlockStorage.read (FileStorage.empty "/scratch") key).1 = .error .missingFile := by
    decide +kernel
  obtain ⟨requested, used⟩ := (separate_keys_like_memory (α := Rat)).2 (· ∈ blockKeys)
    (FileStorage.empty "/scratch") separate blank
  refine ⟨separate, requested _ (by decide +kernel), ?_, by decide +kernel⟩
  have dotted : "./blocks//b_1_2" ∈ blockKeys := by decide +kernel
  have plain : "blocks/b_1_1" ∈ blockKeys := by decide +kernel
  have allowed (block : MatrixBlock) :
      ∀ use ∈ [BufferUse.start, .call (.write "./blocks//b_1_2" block)],
        use.IsFor (· ∈ blockKeys) :=
    List.forall_mem_cons.mpr ⟨trivial, List.forall_mem_singleton.mpr dotted⟩
  exact (used _ 30 _ (allowed _)).2 (.delete "blocks/b_1_1") plain _ dotted (by decide +kernel)

/-- Keys that differ as texts are not separate for that: a dot in front makes another key for the
same file, and a key can need a directory where another one has its file. -/
theorem write_shows_at_other_key :
    let written := (BlockStorage.write (FileStorage.empty "/scratch") "a" [1]).2
    ("./a" ≠ "a" ∧ ScratchPath.accepts "./a" = true ∧ ScratchPath.accepts "a" = true ∧
      (BlockStorage.read written "a").1 = .ok [1] ∧
      (BlockStorage.read (BlockStorage.write written "./a" [2]).2 "a").1 = .ok [2]) ∧
    ("a/b" ≠ "a" ∧ ScratchPath.accepts "a/b" = true ∧
      (BlockStorage.read (FileStorage.empty "/scratch") "a").1 = .error .missingFile ∧
      (BlockStorage.read (BlockStorage.write (FileStorage.empty "/scratch") "a/b" [1]).2 "a").1 =
        .error .isADirectory) := by
  decide +kernel

end FileStorage

end ParallelLoop
