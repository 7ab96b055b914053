import Reckoner.Storage

/-! What has been written to a path is found there, and may be written anew. -/
namespace Reckoner.Storage

theorem find?_filter_ne (nodes : List (Location × Node)) (location other : Location) :
    (nodes.filter (·.1 ≠ location)).find? (·.1 = other) =
      if other = location then none else nodes.find? (·.1 = other) := by
  rw [List.find?_filter]
  split
  next heq =>
    subst heq
    rw [List.find?_eq_none]
    intro a _
    simp
  next hne =>
    congr 1
    funext a
    by_cases ha : a.1 = other <;> simp [ha, hne]

theorem node?_put (s : Storage) {location : Location} (hroot : location ≠ []) (node : Node)
    (other : Location) :
    (s.put location node).node? other = if other = location then some node else s.node? other := by
  unfold node? put
  split
  next hother =>
    subst hother
    rw [if_neg fun h => hroot h.symm]
  next hother =>
    rw [List.find?_append, find?_filter_ne]
    split
    next heq =>
      subst heq
      simp
    next hne => simp [Ne.symm hne]

theorem ne_nil_of_node?_ne {s : Storage} {location : Location}
    (h : s.node? location ≠ some .directory) : location ≠ [] := by
  rintro rfl
  exact h rfl

variable {s s' : Storage} {location : Location}

/-- Whether two storages differ at one location at most, where neither has a directory. -/
structure SameBut (location : Location) (s s' : Storage) : Prop where
  node?_eq : ∀ other, other ≠ location → s.node? other = s'.node? other
  not_directory : s.node? location ≠ some .directory
  not_directory' : s'.node? location ≠ some .directory

/-- The same paths lead to the same locations. -/
theorem SameBut.walk?_eq (h : SameBut location s s') (names : List (List Char))
    (start : Location) : s.walk? names start = s'.walk? names start := by
  induction names generalizing start with
  | nil => rfl
  | cons name names ih =>
    have hdirectory : s.node? start = some .directory ↔ s'.node? start = some .directory := by
      by_cases hstart : start = location
      · subst hstart
        exact iff_of_false h.not_directory h.not_directory'
      · rw [h.node?_eq start hstart]
    simp only [walk?, hdirectory, ih]

/-- What a file holds, whether it can be read and whether there is one is all that may differ. -/
theorem sameBut_put (h : s.node? location ≠ some .directory) {node : Node}
    (hnode : node ≠ .directory) : SameBut location s (s.put location node) where
  node?_eq := fun other hother => by rw [node?_put s (ne_nil_of_node?_ne h), if_neg hother]
  not_directory := h
  not_directory' := by simp [node?_put s (ne_nil_of_node?_ne h), hnode]

/-- A file in a place where no directory is bars no way. -/
theorem walk?_put (h : s.node? location ≠ some .directory) (content : List Char)
    (names : List (List Char)) (start : Location) :
    (s.put location (.file content)).walk? names start = s.walk? names start :=
  have hnode : Node.file content ≠ .directory := nofun
  ((sameBut_put h hnode).walk?_eq names start).symm

theorem node?_ne_of_isReplaceable (h : (s.node? location).all Node.isReplaceable) :
    s.node? location ≠ some .directory := by
  intro hdirectory
  rw [hdirectory] at h
  cases h

variable {workingDirectory : Location} {text content : List Char}

theorem exists_put_of_write? (h : s.write? workingDirectory text content = some s') :
    ∃ path made location, Path.ofText? text = some path ∧
      s.makeDirectories? path.names.dropLast (start workingDirectory path) = some made ∧
      made.locate? workingDirectory path = some location ∧ ¬ path.namesDirectory ∧
      (made.node? location).all Node.isReplaceable ∧ s' = made.put location (.file content) := by
  unfold write? makeParents? overwrite? at h
  simp only [Option.bind_eq_bind, Option.bind_eq_some_iff] at h
  obtain ⟨made, ⟨path, hpath, hmade⟩, path', hpath', location, hlocation, hput⟩ := h
  obtain rfl := Option.some.inj (hpath.symm.trans hpath')
  split at hput
  next => simp at hput
  next hfile =>
    rw [not_or] at hfile
    exact ⟨path, made, location, hpath, hmade, hlocation, hfile.1, by simpa using hfile.2,
      (Option.some.inj hput).symm⟩

theorem look_of_write? (h : s.write? workingDirectory text content = some s') :
    s'.look workingDirectory text = .text content := by
  obtain ⟨path, made, location, hpath, -, hlocation, hfile, hreplaceable, rfl⟩ :=
    exists_put_of_write? h
  have hfree := node?_ne_of_isReplaceable hreplaceable
  unfold look locate?
  unfold locate? at hlocation
  simp only [hpath]
  rw [walk?_put hfree, hlocation, Option.bind_some, node?_put made (ne_nil_of_node?_ne hfree),
    if_pos rfl]
  simp [hfile, Node.read]

theorem node?_of_makeDirectories? {made : Storage} {names : List (List Char)}
    {start location : Location} (h : s.makeDirectories? names start = some made)
    (hlocation : s.node? location = some .directory) :
    made.node? location = some .directory := by
  induction names generalizing s start with
  | nil =>
    obtain rfl := Option.some.inj h
    exact hlocation
  | cons name names ih =>
    unfold makeDirectories? at h
    dsimp only at h
    split at h
    next => exact ih h hlocation
    next => cases h
    next hnothing =>
      have hroot : start.step name ≠ [] := ne_nil_of_node?_ne (s := s) (by simp [hnothing])
      apply ih h
      rw [node?_put s hroot, hlocation]
      split <;> rfl

/-- Directories that have been made need not be made again. -/
theorem makeDirectories?_eq_self {made t : Storage} {names : List (List Char)}
    {start : Location} (h : s.makeDirectories? names start = some made)
    (ht : ∀ location, made.node? location = some .directory →
      t.node? location = some .directory) :
    t.makeDirectories? names start = some t := by
  induction names generalizing s start with
  | nil => rfl
  | cons name names ih =>
    unfold makeDirectories? at h ⊢
    dsimp only at h ⊢
    split at h
    next hdirectory =>
      rw [ht _ (node?_of_makeDirectories? h hdirectory)]
      exact ih h
    next => cases h
    next hnothing =>
      have hroot : start.step name ≠ [] := ne_nil_of_node?_ne (s := s) (by simp [hnothing])
      have hmade : (s.put (start.step name) .directory).node? (start.step name) =
          some .directory := by
        rw [node?_put s hroot, if_pos rfl]
      rw [ht _ (node?_of_makeDirectories? h hmade)]
      exact ih h

theorem put_put (s : Storage) (location : Location) (node node' : Node) :
    (s.put location node).put location node' = s.put location node' := by
  simp [put, List.filter_append, List.filter_filter]

/-- A file that has been written can be written anew, as if it had not been there. -/
theorem write?_of_write? (h : s.write? workingDirectory text content = some s')
    (content' : List Char) :
    s'.write? workingDirectory text content' = s.write? workingDirectory text content' := by
  obtain ⟨path, made, location, hpath, hmade, hlocation, hfile, hreplaceable, rfl⟩ :=
    exists_put_of_write? h
  have hfree := node?_ne_of_isReplaceable hreplaceable
  have hroot := ne_nil_of_node?_ne hfree
  have hagain : (made.put location (.file content)).makeDirectories? path.names.dropLast
      (start workingDirectory path) = some (made.put location (.file content)) := by
    apply makeDirectories?_eq_self hmade
    intro other hother
    rw [node?_put made hroot, if_neg _, hother]
    rintro rfl
    exact hfree hother
  have hsame : (made.put location (.file content)).locate? workingDirectory path =
      some location := by
    unfold locate? at hlocation ⊢
    rw [walk?_put hfree, hlocation]
  unfold write? makeParents? overwrite?
  simp only [Option.bind_eq_bind, hpath, hmade, hagain, hlocation, hsame, Option.bind_some,
    node?_put made hroot, if_true, put_put, hfile, hreplaceable, Option.all_some,
    Node.isReplaceable, Bool.not_true, Bool.false_eq_true, or_self, if_false]

end Reckoner.Storage
