import CurveArea.Path
import Mathlib.Data.List.Basic

/-!
# Writing a file and reading it again

A file that is written at a place changes nothing at the others. So a path that led to this place
leads there still: the folders and links on its way are what they were, because what is written over
is neither. What is read at the path is then what was written.
-/

namespace CurveArea

theorem lookup_filter_of_ne {κ β : Type} [BEq κ] [LawfulBEq κ] {key other : κ}
    (different : other ≠ key) (entries : List (κ × β)) :
    (entries.filter (·.1 != key)).lookup other = entries.lookup other := by
  induction entries with
  | nil => rfl
  | cons entry rest ih =>
    obtain ⟨first, value⟩ := entry
    by_cases dropped : first = key
    · subst dropped
      rw [List.filter_cons_of_neg (by simp), ih, List.lookup_cons, beq_false_of_ne different]
    · rw [List.filter_cons_of_pos (by simpa using dropped), List.lookup_cons, List.lookup_cons, ih]

/-- What a path ends at is what stands there. -/
def Leaf.StandsIn (system : FileSystem) : Leaf → Prop
  | .device d => ∃ place, system.get? place = some (.device d)
  | .file place content refusal => system.get? place = some (.file content refusal)
  | .free folder name => system.get? (folder ++ [name]) = none

/-- The place of a file, or of one that can be created. -/
def Leaf.place? : Leaf → Option (List String)
  | .device _ => none
  | .file place _ _ => some place
  | .free folder name => some (folder ++ [name])

namespace FileSystem

variable {system : FileSystem} {place other : List String} {content : ByteArray} {path : String}

theorem get?_put (system : FileSystem) (place other : List String) (entry : Entry) :
    (system.put place entry).get? other =
      if other = place then some entry else system.get? other := by
  rw [put, get?, List.lookup_cons]
  by_cases same : other = place
  · rw [if_pos same, same, beq_self_eq_true]
  · rw [if_neg same, beq_false_of_ne same]
    show (system.entries.filter (·.1 != place)).lookup other = _
    exact lookup_filter_of_ne same system.entries

theorem get?_write_self : (system.write place content).get? place = some (.file content none) := by
  rw [write, get?_put, if_pos rfl]

theorem get?_write_of_ne (different : other ≠ place) :
    (system.write place content).get? other = system.get? other := by
  rw [write, get?_put, if_neg different]

section Walk

variable {jump jump' : Bool → List String → List (List Char) → Except FileFault Target}
  {slash after : Bool} {folder : List String} {part : List Char} {parts : List (List Char)}
  {leaf : Leaf} {links : Nat}

theorem walk_folder (notHere : part ≠ ['.']) (notUp : part ≠ ['.', '.'])
    {refusal : Option FileFault}
    (found : system.get? (folder ++ [String.ofList part]) = some (.folder refusal)) :
    system.walk jump slash folder (part :: parts) =
      system.walk jump slash (folder ++ [String.ofList part]) parts := by
  rw [walk, if_neg notHere, if_neg notUp]
  dsimp only
  rw [found]

theorem walk_link (notHere : part ≠ ['.']) (notUp : part ≠ ['.', '.'])
    (found : system.get? (folder ++ [String.ofList part]) = some (.link path)) :
    system.walk jump slash folder (part :: parts) =
      jump (slash || parts.isEmpty && Path.endsInSlash path) (Path.start folder path)
        (Path.parts path ++ parts) := by
  rw [walk, if_neg notHere, if_neg notUp]
  dsimp only
  rw [found]

theorem walk_file (notHere : part ≠ ['.']) (notUp : part ≠ ['.', '.'])
    (noMore : parts.isEmpty = true) {refusal : Option FileFault}
    (found : system.get? (folder ++ [String.ofList part]) = some (.file content refusal)) :
    system.walk jump slash folder (part :: parts) =
      .ok (.leaf (.file (folder ++ [String.ofList part]) content refusal) slash) := by
  rw [walk, if_neg notHere, if_neg notUp]
  dsimp only
  rw [found]
  exact if_pos noMore

theorem standsIn_of_walk
    (jumped : ∀ slash folder parts, jump slash folder parts = .ok (.leaf leaf after) →
      leaf.StandsIn system)
    (walked : system.walk jump slash folder parts = .ok (.leaf leaf after)) :
    leaf.StandsIn system := by
  fun_induction system.walk jump slash folder parts with
  | case1 => cases walked
  | case2 _ _ ih => exact ih walked
  | case3 _ _ _ ih => exact ih walked
  | case4 _ _ _ _ _ _ _ _ _ ih => exact ih walked
  | case5 => exact jumped _ _ _ walked
  | case6 _ _ _ _ _ _ _ device found =>
    cases walked
    exact ⟨_, found⟩
  | case8 _ _ _ _ _ _ _ _ _ found =>
    cases walked
    exact found
  | case10 _ _ _ _ _ _ _ found =>
    cases walked
    exact found
  | case7 | case9 | case11 | case12 => cases walked

theorem standsIn_of_follow
    (followed : system.follow links slash folder parts = .ok (.leaf leaf after)) :
    leaf.StandsIn system := by
  induction links generalizing slash folder parts with
  | zero => exact standsIn_of_walk (fun _ _ _ many => by cases many) followed
  | succ links ih => exact standsIn_of_walk (fun _ _ _ => ih) followed

/-- A folder or a link is not where a file is written. -/
theorem ne_of_standsIn (stands : leaf.StandsIn system) (here : leaf.place? = some place)
    {entry : Entry} (found : system.get? other = some entry)
    (noFile : ∀ content refusal, entry ≠ .file content refusal) : other ≠ place := by
  rintro rfl
  cases leaf with
  | device => cases here
  | file =>
    cases here
    exact noFile _ _ (Option.some.inj (found.symm.trans stands))
  | free =>
    cases here
    cases found.symm.trans stands

/-- Where a walk led to the place of a file, it leads to what is written there. -/
theorem walk_write (stands : leaf.StandsIn system) (here : leaf.place? = some place)
    (jumped : ∀ slash folder parts, jump slash folder parts = .ok (.leaf leaf after) →
      jump' slash folder parts = .ok (.leaf (.file place content none) after))
    (walked : system.walk jump slash folder parts = .ok (.leaf leaf after)) :
    (system.write place content).walk jump' slash folder parts =
      .ok (.leaf (.file place content none) after) := by
  fun_induction system.walk jump slash folder parts with
  | case1 => cases walked
  | case2 _ _ ih =>
    rw [walk, if_pos rfl]
    exact ih walked
  | case3 _ _ _ ih =>
    rw [walk, if_neg (by decide), if_pos rfl]
    exact ih walked
  | case4 folder part parts notHere notUp name next refusal found ih =>
    have different : next ≠ place := ne_of_standsIn stands here found nofun
    rw [walk_folder notHere notUp ((get?_write_of_ne different).trans found)]
    exact ih walked
  | case5 folder part parts notHere notUp name next path found =>
    have different : next ≠ place := ne_of_standsIn stands here found nofun
    rw [walk_link notHere notUp ((get?_write_of_ne different).trans found)]
    exact jumped _ _ _ walked
  | case6 =>
    cases walked
    cases here
  | case8 folder part parts notHere notUp name next _ refusal found noMore =>
    cases walked
    obtain rfl : next = place := Option.some.inj here
    exact walk_file notHere notUp noMore get?_write_self
  | case10 folder part parts notHere notUp name next found noMore =>
    cases walked
    obtain rfl : next = place := Option.some.inj here
    exact walk_file notHere notUp noMore get?_write_self
  | case7 | case9 | case11 | case12 => cases walked

theorem follow_write (here : leaf.place? = some place)
    (followed : system.follow links slash folder parts = .ok (.leaf leaf after)) :
    (system.write place content).follow links slash folder parts =
      .ok (.leaf (.file place content none) after) := by
  have stands := standsIn_of_follow followed
  induction links generalizing slash folder parts with
  | zero => exact walk_write stands here (fun _ _ _ many => by cases many) followed
  | succ links ih =>
    exact walk_write stands here (fun _ _ _ => ih) followed

end Walk

/-- A path that led to the place of a file leads to what is written there. -/
theorem resolve_write {leaf : Leaf} {after : Bool} (here : leaf.place? = some place)
    (led : system.resolve path = .ok (.leaf leaf after)) :
    (system.write place content).resolve path = .ok (.leaf (.file place content none) after) := by
  rw [resolve] at led
  split at led
  · cases led
  · next named =>
    split at led
    · cases led
    · next valid =>
      split at led
      · cases led
      · next short =>
        rw [resolve, if_neg named, if_neg valid, if_neg short]
        exact follow_write here led

theorem ne_file_of_sink {device : Device} {sink : Sink} (h : device.sink = .ok sink) :
    sink ≠ .file place := by
  rintro rfl
  rw [Device.sink.eq_def] at h
  split at h <;> cases h

/-- A path at which a file can be created leads to a device that takes the text, or to a file or a
free name, with no slash behind it. -/
theorem resolve_of_sink {sink : Sink} (creatable : system.sink path = .ok sink) :
    ∃ leaf, system.resolve path = .ok (.leaf leaf false) ∧
      ((∃ device, leaf = .device device ∧ device.sink = .ok sink) ∨
        ∃ place, leaf.place? = some place ∧ sink = .file place) := by
  rw [FileSystem.sink] at creatable
  cases led : system.resolve path with
  | error fault =>
    rw [led] at creatable
    cases creatable
  | ok target =>
    rw [led] at creatable
    rcases target with _ | ⟨leaf, slash⟩
    · cases creatable
    · cases slash with
      | true => cases creatable
      | false =>
        refine ⟨leaf, rfl, ?_⟩
        cases leaf with
        | device device => exact .inl ⟨device, rfl, creatable⟩
        | file there _ refusal =>
          cases refusal with
          | some fault => cases creatable
          | none =>
            cases creatable
            exact .inr ⟨there, rfl, rfl⟩
        | free folder name =>
          change (if _ then _ else _) = _ at creatable
          split at creatable
          · cases creatable
          · cases refused : system.refusal folder with
            | some fault =>
              rw [refused] at creatable
              cases creatable
            | none =>
              rw [refused] at creatable
              cases creatable
              exact .inr ⟨folder ++ [name], rfl, rfl⟩

theorem exists_resolve_of_sink (creatable : system.sink path = .ok (.file place)) :
    ∃ leaf, system.resolve path = .ok (.leaf leaf false) ∧ leaf.place? = some place := by
  obtain ⟨leaf, led, ⟨device, -, given⟩ | ⟨there, here, same⟩⟩ := resolve_of_sink creatable
  · exact absurd rfl (ne_file_of_sink given)
  · cases same
    exact ⟨leaf, led, here⟩

/-- Only at a device no file is created. -/
theorem exists_device_of_sink {sink : Sink} (creatable : system.sink path = .ok sink)
    (noFile : ∀ place, sink ≠ .file place) :
    ∃ device, system.resolve path = .ok (.leaf (.device device) false) := by
  obtain ⟨leaf, led, ⟨device, rfl, -⟩ | ⟨place, -, same⟩⟩ := resolve_of_sink creatable
  · exact ⟨device, led⟩
  · exact absurd same (noFile place)

/-- What a path gives after a file was created at it. -/
theorem read_write (creatable : system.sink path = .ok (.file place)) (input content : ByteArray) :
    (system.write place content).read input path = .ok content := by
  obtain ⟨leaf, led, here⟩ := exists_resolve_of_sink creatable
  rw [read, resolve_write here led]
  rfl

end FileSystem

end CurveArea
