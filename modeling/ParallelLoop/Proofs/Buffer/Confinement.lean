/-
# Keys and the scratch directory

A key is accepted exactly when it is not empty, does not begin with a slash, and has no two dots
between slashes; names that only contain dots are names like others, and slashes and single dots may
be repeated at will. The file of such a key lies in the scratch directory, wherever that is. To see
this from the texts alone, a path is normalised: dots go, and two dots undo the name before them.
The path of the file is then the path of the directory with the names of the key behind it, and
these are the names by which the storage looks up the file.

A key that is not accepted never gets as far as the files.
-/

import ParallelLoop.Buffer.FileStorage

namespace ParallelLoop

theorem splitAtSlashes_eq_splitOn (text : List Char) : splitAtSlashes text = text.splitOn '/' := by
  induction text with
  | nil => rfl
  | cons c rest ih =>
    rw [splitAtSlashes, ih]
    unfold List.splitOn
    rw [List.splitOnP_cons_eq_if_modifyHead]
    by_cases slash : c = '/'
    · rw [if_pos slash, if_pos (beq_iff_eq.mpr slash)]
    · rw [if_neg slash, if_neg (mt beq_iff_eq.mp slash)]
      cases found : rest.splitOnP (· == '/') with
      | nil => exact absurd found (List.splitOn_ne_nil '/' rest)
      | cons piece pieces => rfl

namespace PathComponent

/-- Only two dots lead out of a directory. -/
theorem staysInside_ofPiece? {piece : String} {component : PathComponent}
    (read : ofPiece? piece = some component) : component.staysInside = true ↔ piece ≠ ".." := by
  unfold ofPiece? at read
  split at read
  next => cases read
  next =>
    split at read
    next up =>
      cases read
      exact ⟨nofun, fun named => absurd up named⟩
    next named =>
      cases read
      exact ⟨fun _ => named, fun _ => rfl⟩

/-- A path with one more component. Going up undoes the last name, and at the root it does
nothing. -/
def follow (path : List PathComponent) : PathComponent → List PathComponent
  | root => [root]
  | current => path
  | parent =>
    match path.getLast? with
    | some (name _) => path.dropLast
    | some root => path
    | _ => path ++ [parent]
  | name text => path ++ [name text]

theorem foldl_follow_names (names : List String) (path : List PathComponent) :
    (names.map name).foldl follow path = path ++ names.map name := by
  induction names generalizing path with
  | nil => exact (List.append_nil path).symm
  | cons first rest ih =>
    rw [List.map_cons, List.foldl_cons, ih, follow, List.append_assoc, List.singleton_append]

end PathComponent

namespace ScratchPath

variable {key : String}

/-! ## Pieces of paths -/

theorem pieces_ofKey (key : String) :
    (ofKey key).pieces = (key.toList.splitOn '/').map String.ofList := by
  rw [ofKey, splitAtSlashes_eq_splitOn]

theorem mem_pieces_iff {piece : String} :
    piece ∈ (ofKey key).pieces ↔ piece.toList ∈ key.toList.splitOn '/' := by
  rw [pieces_ofKey, List.mem_map]
  constructor
  · rintro ⟨chars, there, rfl⟩
    rwa [String.toList_ofList]
  · exact fun there => ⟨_, there, String.ofList_toList⟩

theorem pieces_ne_nil (key : String) : (ofKey key).pieces ≠ [] := by
  rw [pieces_ofKey]
  exact mt List.map_eq_nil_iff.mp (List.splitOn_ne_nil '/' _)

/-- What stands before a slash and what stands behind it are split on their own. -/
theorem pieces_append (front back : String) :
    (ofKey (front ++ "/" ++ back)).pieces = (ofKey front).pieces ++ (ofKey back).pieces := by
  have chars : (front ++ "/" ++ back).toList = front.toList ++ '/' :: back.toList := by simp
  rw [pieces_ofKey, pieces_ofKey, pieces_ofKey, chars, List.splitOn_append_cons_self,
    List.map_append]

/-- A text is known by its pieces. -/
theorem toList_eq_intercalate (key : String) :
    key.toList = ['/'].intercalate ((ofKey key).pieces.map String.toList) := by
  rw [pieces_ofKey, List.map_map]
  simp [Function.comp_def, List.intercalate_splitOn]

theorem head?_eq_slash_iff :
    key.toList.head? = some '/' ↔ ∃ rest, rest ≠ [] ∧ (ofKey key).pieces = "" :: rest := by
  constructor
  · intro begins
    obtain ⟨chars, key_eq⟩ := List.head?_eq_some_iff.mp begins
    have split : key = "" ++ "/" ++ String.ofList chars := by
      rw [← String.toList_inj, key_eq]
      simp
    exact ⟨_, pieces_ne_nil _, split ▸ pieces_append "" (String.ofList chars)⟩
  · rintro ⟨rest, more, pieces_eq⟩
    obtain ⟨next, others, rfl⟩ := List.exists_cons_of_ne_nil more
    rw [toList_eq_intercalate, pieces_eq]
    rfl

/-- A path begins at the root when its text begins with a slash. -/
theorem start?_eq_some_root : (ofKey key).start? = some .root ↔ key.toList.head? = some '/' := by
  rw [head?_eq_slash_iff, start?]
  obtain ⟨first, rest, pieces_eq⟩ := List.exists_cons_of_ne_nil (pieces_ne_nil key)
  rw [pieces_eq]
  dsimp only
  by_cases dot : first = "."
  · simp [dot]
  · by_cases slash : first = "" ∧ rest ≠ []
    · rw [if_neg dot, if_pos slash]
      exact ⟨fun _ => ⟨rest, slash.2, by rw [slash.1]⟩, fun _ => rfl⟩
    · rw [if_neg dot, if_neg slash]
      refine ⟨nofun, ?_⟩
      rintro ⟨others, more, same⟩
      obtain ⟨rfl, rfl⟩ := List.cons.inj same
      exact absurd ⟨rfl, more⟩ slash

/-! ## Accepted keys -/

theorem start?_cases (path : ScratchPath) :
    path.start? = none ∨ path.start? = some .current ∨ path.start? = some .root := by
  unfold start?
  split
  next =>
    split
    next => exact .inr (.inl rfl)
    next =>
      split
      next => exact .inr (.inr rfl)
      next => exact .inl rfl
  next => exact .inl rfl

/-- A path starts outside when it starts at the root. -/
theorem staysInside_start? (path : ScratchPath) :
    path.start?.toList.all PathComponent.staysInside = true ↔ ¬ path.start? = some .root := by
  rcases path.start?_cases with start | start | start <;>
    simp [start, PathComponent.staysInside]

theorem accepts_iff : accepts key = true ↔
    key ≠ "" ∧ key.toList.head? ≠ some '/' ∧ ".." ∉ (ofKey key).pieces := by
  have later : ((ofKey key).pieces.filterMap PathComponent.ofPiece?).all
      PathComponent.staysInside = true ↔ ".." ∉ (ofKey key).pieces := by
    rw [List.all_eq_true]
    constructor
    · exact fun all up => absurd (all .parent (List.mem_filterMap.mpr ⟨"..", up, rfl⟩)) nofun
    · intro absent component there
      obtain ⟨piece, inside, read⟩ := List.mem_filterMap.mp there
      exact (PathComponent.staysInside_ofPiece? read).mpr fun same => absent (same ▸ inside)
  rw [accepts, Bool.and_eq_true, bne_iff_ne, components, List.all_append, Bool.and_eq_true,
    staysInside_start?, later, start?_eq_some_root]

/-- Without two dots, a path goes along its names. -/
theorem filterMap_pieces {path : ScratchPath} (inside : ".." ∉ path.pieces) :
    path.pieces.filterMap PathComponent.ofPiece? = path.names.map .name := by
  unfold names
  obtain ⟨pieces⟩ := path
  dsimp only at inside ⊢
  induction pieces with
  | nil => rfl
  | cons piece rest ih =>
    rw [List.mem_cons, not_or] at inside
    rw [List.filterMap_cons, List.filter_cons, PathComponent.ofPiece?]
    -- A piece that is empty or a dot names nothing, and none here leads upwards.
    by_cases silent : piece = "" ∨ piece = "."
    · have unnamed : isName piece = false := by rcases silent with rfl | rfl <;> rfl
      rw [if_pos silent, if_neg (by rw [unnamed]; nofun)]
      exact ih inside.2
    · have named : isName piece = true := by simpa [isName] using silent
      rw [if_neg silent, if_neg (Ne.symm inside.1), if_pos named, List.map_cons, ← ih inside.2]

/-! ## Normal paths -/

/-- The path without dots, and without names that are left again, as its text tells. -/
def normalize (path : String) : List PathComponent :=
  (ofKey path).components.foldl PathComponent.follow []

/-- A slash behind a path changes nothing. -/
theorem components_slash {path : String} (given : path ≠ "") :
    (ofKey (path ++ "/")).components = (ofKey path).components := by
  have pieces : (ofKey (path ++ "/")).pieces = (ofKey path).pieces ++ [""] := by
    have split := pieces_append path ""
    rwa [String.append_empty] at split
  obtain ⟨first, rest, pieces_eq⟩ := List.exists_cons_of_ne_nil (pieces_ne_nil path)
  have start : (ofKey (path ++ "/")).start? = (ofKey path).start? := by
    rw [start?, start?, pieces, pieces_eq]
    by_cases more : rest = []
    · -- A path with a single piece is that piece.
      have text := toList_eq_intercalate path
      rw [pieces_eq, more] at text
      have same : path = first := String.toList_inj.mp (by simpa using text)
      rw [same] at given
      simp [given]
    · simp [more]
  have silent : [""].filterMap PathComponent.ofPiece? = [] := rfl
  rw [components, components, start, pieces, List.filterMap_append, silent, List.append_nil]

/-- The components of a path behind a slash. -/
theorem components_append (front back : String) :
    (ofKey (front ++ "/" ++ back)).components =
      (ofKey (front ++ "/")).components ++
        (ofKey back).pieces.filterMap PathComponent.ofPiece? := by
  have pieces : (ofKey (front ++ "/")).pieces = (ofKey front).pieces ++ [""] := by
    have split := pieces_append front ""
    rwa [String.append_empty] at split
  have start : (ofKey (front ++ "/" ++ back)).start? = (ofKey (front ++ "/")).start? := by
    obtain ⟨first, rest, pieces_eq⟩ := List.exists_cons_of_ne_nil (pieces_ne_nil front)
    rw [start?, start?, pieces_append, pieces, pieces_eq]
    simp [pieces_ne_nil back]
  have silent : [""].filterMap PathComponent.ofPiece? = [] := rfl
  rw [components, components, start, pieces_append, pieces, List.filterMap_append,
    List.filterMap_append, silent, List.append_nil, List.append_assoc]

/-- Below a directory there are the components of a key behind those of the directory. -/
theorem components_join {root : String} (given : root ≠ "")
    (relative : key.toList.head? ≠ some '/') :
    (ofKey (join root key)).components =
      (ofKey root).components ++ (ofKey key).pieces.filterMap PathComponent.ofPiece? := by
  rw [join, if_neg relative]
  by_cases closed : root.toList.getLast? = some '/'
  · rw [if_pos (.inr closed)]
    obtain ⟨front, chars⟩ := List.getLast?_eq_some_iff.mp closed
    have root_eq : root = String.ofList front ++ "/" := by
      rw [← String.toList_inj, chars]
      simp
    rw [root_eq]
    exact components_append _ key
  · rw [if_neg (not_or.mpr ⟨given, closed⟩), components_append, components_slash given]

/-- The file of an accepted key lies below the scratch directory, where its names lead. -/
theorem normalize_join (accepted : accepts key = true) (root : String) :
    normalize (join root key) = normalize root ++ (ofKey key).names.map .name := by
  obtain ⟨-, relative, inside⟩ := accepts_iff.mp accepted
  by_cases given : root = ""
  · -- Without a directory the key stands for itself, and may begin with a dot.
    have same : join root key = key := by
      rw [join, if_neg relative, if_pos (.inl given), given, String.empty_append]
    have start : (ofKey key).start?.toList.foldl PathComponent.follow [] = [] := by
      rcases (ofKey key).start?_cases with start | start | start
      · rw [start]; rfl
      · rw [start]; rfl
      · exact absurd (start?_eq_some_root.mp start) relative
    rw [same, normalize, components, List.foldl_append, start, filterMap_pieces inside,
      PathComponent.foldl_follow_names, given]
    rfl
  · rw [normalize, components_join given relative, List.foldl_append, filterMap_pieces inside,
      PathComponent.foldl_follow_names]
    rfl

/-! ## Confinement -/

/-- Every key is either accepted, and its file lies in the scratch directory, or it is refused
before any file is touched. -/
theorem confined (key : String) :
    (accepts key = true ↔
      key ≠ "" ∧ key.toList.head? ≠ some '/' ∧ ['.', '.'] ∉ key.toList.splitOn '/') ∧
    (accepts key = true → ∀ root, ∃ path, resolve root key = .ok path ∧
      normalize root <+: normalize path ∧
      normalize path = normalize root ++ (ofKey key).names.map .name) ∧
    (accepts key = false → (∀ root, resolve root key = .error .invalidKey) ∧
      StorageFault.invalidKey.kindName = "InvalidInput" ∧ ∀ storage : FileStorage,
        (∀ bytes, BlockStorage.write storage key bytes = (.error .invalidKey, storage)) ∧
        BlockStorage.read storage key = (.error .invalidKey, storage) ∧
        BlockStorage.delete storage key = (.error .invalidKey, storage)) := by
  refine ⟨?_, fun accepted root => ?_, fun refused => ⟨fun root => ?_, rfl, fun storage => ?_⟩⟩
  · rw [accepts_iff, mem_pieces_iff]
    rfl
  · have names := normalize_join accepted root
    refine ⟨join root key, if_pos accepted, ?_, names⟩
    rw [names]
    exact List.prefix_append _ _
  · exact if_neg (by rw [refused]; nofun)
  · have unknown : ofKey? key = none := if_neg (by rw [refused]; nofun)
    simp [BlockStorage.write, BlockStorage.read, BlockStorage.delete, unknown]

/-- Dots within names are harmless, and so are single dots and further slashes; two dots between
slashes are not, even if they would only undo a name. -/
theorem confined_dots :
    (∃ path, resolve "tmp/../scratch" "./a..b//.../c/" = .ok path ∧
      normalize "tmp/../scratch" <+: normalize path ∧
      normalize path = [.name "scratch", .name "a..b", .name "...", .name "c"]) ∧
    BlockStorage.write (FileStorage.empty "scratch") "a/../b" [] =
      (.error .invalidKey, .empty "scratch") := by
  have accepted : accepts "./a..b//.../c/" = true := by decide +kernel
  have refused : accepts "a/../b" = false := by decide +kernel
  have names : normalize "tmp/../scratch" ++ (ofKey "./a..b//.../c/").names.map .name =
      [.name "scratch", .name "a..b", .name "...", .name "c"] := by decide +kernel
  obtain ⟨path, found, below, same⟩ := (confined "./a..b//.../c/").2.1 accepted "tmp/../scratch"
  obtain ⟨-, -, untouched⟩ := (confined "a/../b").2.2 refused
  exact ⟨⟨path, found, below, same.trans names⟩, (untouched (.empty "scratch")).1 []⟩

end ScratchPath

end ParallelLoop
