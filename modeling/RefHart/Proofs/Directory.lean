import Mathlib
import RefHart.Proofs.FileStore
import RefHart.Tool.Directory

/-!
# Writing into a directory

A path that stays in the directory up to its last step leads to the name in that step, whatever the
directory holds (`Files.target?`).

**Theorem (`getElem?_write`).** An accepted write puts its text under the name to which its path
leads. Every other file is as it was, and a path that leads to no name changes none.

A path to which a text can be written stays so when files are written (`exists_write_of_write`): what
the steps before the last one have found is found again. So the directory obeys the laws for files
behind an access (`Files.store`).
-/

namespace RefHart.Files

variable {files files' : Files} {place : Place} {path name step text : Text}

/-! ## Steps -/

/-- Whether a step of a path stays in the directory. -/
def stays (step : Text) : Bool := step == [] || step == ['.']

theorem stays_iff : stays step = true ↔ step = [] ∨ step = ['.'] := by simp [stays]

theorem follow_of_stays (h : stays step = true) : files.follow .here step = .ok .here := by
  rw [follow, if_neg (by decide), if_pos (stays_iff.1 h)]

theorem foldlM_follow_of_stays {steps : List Text} (h : ∀ step ∈ steps, stays step = true) :
    steps.foldlM files.follow .here = .ok .here := by
  induction steps with
  | nil => rfl
  | cons step steps ih =>
    rw [List.foldlM_cons, follow_of_stays (h step List.mem_cons_self)]
    exact ih fun step hstep => h step (List.mem_cons_of_mem _ hstep)

theorem entry_ne_here : files.entry place name ≠ .ok .here := by
  cases place <;> simp only [entry] <;> split_ifs <;> exact nofun

/-- The directory is not entered again once it is left. -/
theorem follow_eq_here (h : files.follow place step = .ok .here) :
    place = .here ∧ stays step = true := by
  unfold follow at h
  split_ifs at h with hdirectory hstays hup
  · exact ⟨Except.ok.inj h, stays_iff.2 hstays⟩
  · cases place <;> exact nomatch Except.ok.inj h
  · exact absurd h entry_ne_here

theorem foldlM_follow_eq_here {steps : List Text}
    (h : steps.foldlM files.follow place = .ok .here) :
    place = .here ∧ ∀ step ∈ steps, stays step = true := by
  induction steps generalizing place with
  | nil => exact ⟨Except.ok.inj h, List.forall_mem_nil _⟩
  | cons step steps ih =>
    rw [List.foldlM_cons] at h
    cases hstep : files.follow place step with
    | error e => rw [hstep] at h; contradiction
    | ok next =>
      rw [hstep] at h
      obtain ⟨rfl, hsteps⟩ := ih h
      obtain ⟨hplace, hstays⟩ := follow_eq_here hstep
      exact ⟨hplace, List.forall_mem_cons.2 ⟨hstays, hsteps⟩⟩

/-! ## More files -/

section

variable (hmore : ∀ name ∈ files, name ∈ files')

include hmore

theorem entry_of_subset {next : Place} (h : files.entry place name = .ok next) :
    files'.entry place name = .ok next := by
  cases place with
  | here =>
    simp only [entry] at h ⊢
    split_ifs at h with hlength hmem
    rw [if_neg hlength, if_pos (hmore name hmem), h]
  | _ => exact h

theorem follow_of_subset {next : Place} (h : files.follow place step = .ok next) :
    files'.follow place step = .ok next := by
  unfold follow at h ⊢
  split_ifs at h ⊢
  · exact h
  · exact h
  · exact entry_of_subset hmore h

theorem foldlM_follow_of_subset {last : Place} {steps : List Text}
    (h : steps.foldlM files.follow place = .ok last) :
    steps.foldlM files'.follow place = .ok last := by
  induction steps generalizing place with
  | nil => exact h
  | cons step steps ih =>
    rw [List.foldlM_cons] at h ⊢
    cases hstep : files.follow place step with
    | error e => rw [hstep] at h; contradiction
    | ok next =>
      rw [hstep] at h
      rw [follow_of_subset hmore hstep]
      exact ih h

end

/-! ## The end of a path -/

/-- The steps of a path lead to a directory, and the last one names something in it. -/
structure Ends (files : Files) (path : Text) (place : Place) (name : Text) : Prop where
  length_lt : path.utf8Length < pathLimit
  steps_eq : ∃ before, (steps path).2 = before ++ [name] ∧
    before.foldlM files.follow (steps path).1 = .ok place
  isDirectory_eq : place.isDirectory = true
  ne_nil : name ≠ []
  isDots_eq : isDots name = false

theorem Ends.of_subset (h : files.Ends path place name) (hmore : ∀ name ∈ files, name ∈ files') :
    files'.Ends path place name := by
  obtain ⟨hlength, ⟨before, hsteps, hplace⟩, hdirectory, hne, hdots⟩ := h
  exact ⟨hlength, ⟨before, hsteps, foldlM_follow_of_subset hmore hplace⟩, hdirectory, hne, hdots⟩

/-- A write goes to the end of its path. -/
theorem write_eq_ok_iff :
    files.write path text = .ok files' ↔
      ∃ place name, files.Ends path place name ∧ files.writeIn place name text = .ok files' := by
  have htrailing (names : List Text) :
      (names.reverse.dropWhile (· == [])).reverse = names.rdropWhile (· == []) := rfl
  rw [write]
  constructor
  · intro h
    split_ifs at h with hlength
    dsimp only at h
    rw [htrailing] at h
    cases hplace : ((steps path).2.rdropWhile (· == [])).dropLast.foldlM files.follow
        (steps path).1 with
    | error e => rw [hplace] at h; contradiction
    | ok place =>
      rw [hplace] at h
      dsimp only [bind, Except.bind] at h
      split at h
      · contradiction
      · rename_i name hlast
        split_ifs at h with hdirectory hend
        rw [not_or] at hend
        have hnamed : (steps path).2.rdropWhile (· == []) = (steps path).2 :=
          (List.rdropWhile_prefix _ _).eq_of_length_le (Nat.le_of_not_lt hend.1)
        have hsteps := List.dropLast_append_getLast? name hlast
        rw [hnamed] at hsteps hplace
        have hne : name ≠ [] := by
          rw [← hsteps] at hnamed
          simpa using List.rdropWhile_eq_self_iff.1 hnamed (by simp)
        exact ⟨place, name, ⟨Nat.lt_of_not_le hlength, ⟨_, hsteps.symm, hplace⟩,
          by simpa using hdirectory, hne, Bool.eq_false_of_not_eq_true hend.2⟩, h⟩
  · rintro ⟨place, name, hends, h⟩
    obtain ⟨before, hsteps, hplace⟩ := hends.steps_eq
    have hnamed : (before ++ [name]).rdropWhile (· == []) = before ++ [name] :=
      List.rdropWhile_concat_neg _ _ _ (by simpa using hends.ne_nil)
    rw [if_neg hends.length_lt.not_ge]
    dsimp only
    rw [htrailing, hsteps, hnamed, List.dropLast_concat, List.getLast?_concat, hplace]
    show (if _ then _ else if _ then _ else files.writeIn place name text) = _
    rw [if_neg (by simp [hends.isDirectory_eq]), if_neg (by simp [hends.isDots_eq]), h]

/-! ## Names in the directory -/

/-- The name in the directory to which a path leads. -/
def target? (path : Text) : Option Text :=
  if path.utf8Length < pathLimit ∧ (steps path).1 = .here ∧ (steps path).2.dropLast.all stays then
    (steps path).2.getLast?.filter fun name =>
      name ≠ [] ∧ isDots name = false ∧ name.utf8Length ≤ maxNameLength
  else none

theorem target?_eq_some_iff (files : Files) :
    target? path = some name ↔ files.Ends path .here name ∧ name.utf8Length ≤ maxNameLength := by
  rw [target?]
  constructor
  · intro h
    split_ifs at h with hsteps
    obtain ⟨hlength, hhere, hstays⟩ := hsteps
    obtain ⟨hlast, hname⟩ := Option.filter_eq_some_iff.1 h
    obtain ⟨hne, hdots, hname⟩ := of_decide_eq_true hname
    refine ⟨⟨hlength, ⟨_, (List.dropLast_append_getLast? name hlast).symm, ?_⟩, rfl, hne, hdots⟩,
      hname⟩
    rw [hhere]
    exact foldlM_follow_of_stays (List.all_eq_true.1 hstays)
  · rintro ⟨hends, hname⟩
    obtain ⟨before, hsteps, hplace⟩ := hends.steps_eq
    obtain ⟨hhere, hstays⟩ := foldlM_follow_eq_here hplace
    rw [hsteps, List.dropLast_concat, if_pos ⟨hends.length_lt, hhere, List.all_eq_true.2 hstays⟩,
      List.getLast?_concat, Option.filter_some, if_pos]
    exact decide_eq_true ⟨hends.ne_nil, hends.isDots_eq, hname⟩

theorem entry_here (h : name.utf8Length ≤ maxNameLength) :
    files.entry .here name = if name ∈ files then .ok (.file name) else .error .notFound := by
  rw [entry, if_neg h.not_gt]

theorem eq_here_of_entry_eq_file {other : Text} (h : files.entry place name = .ok (.file other)) :
    place = .here := by
  cases place with
  | here => rfl
  | _ => simp only [entry] at h; split_ifs at h <;> exact nomatch h

theorem writeIn_here (h : name.utf8Length ≤ maxNameLength) (text : Text) :
    files.writeIn .here name text = .ok (files.insert name (.text text)) := by
  rw [writeIn, entry_here h, if_pos rfl]
  split_ifs <;> rfl

theorem length_le_of_writeIn (h : files.writeIn place name text = .ok files') :
    name.utf8Length ≤ maxNameLength := by
  by_contra hlong
  have hentry : files.entry place name = .error .nameTooLong := if_pos (Nat.lt_of_not_le hlong)
  rw [writeIn, hentry] at h
  contradiction

/-- Elsewhere nothing is kept, and it does not matter what the directory holds. -/
theorem writeIn_of_ne_here (h : files.writeIn place name text = .ok files') (hplace : place ≠ .here)
    (files₁ : Files) (text₁ : Text) : files₁.writeIn place name text₁ = .ok files₁ := by
  have hentry : files₁.entry place name = files.entry place name := by
    cases place with
    | here => contradiction
    | _ => rfl
  unfold writeIn at h ⊢
  rw [hentry]
  simp only [if_neg hplace] at h ⊢
  split at h
  · rename_i hfile
    exact absurd (eq_here_of_entry_eq_file hfile) hplace
  · rfl
  · contradiction
  · rfl
  · contradiction

/-! ## Reading and writing -/

theorem read_of_target? (h : target? path = some name) :
    files.read path = files.readAt (.file name) := by
  obtain ⟨hends, hname⟩ := (target?_eq_some_iff files).1 h
  obtain ⟨before, hsteps, hplace⟩ := hends.steps_eq
  have hdots := hends.isDots_eq
  rw [isDots, Bool.or_eq_false_iff, beq_eq_false_iff_ne, beq_eq_false_iff_ne] at hdots
  rw [read, if_neg hends.length_lt.not_ge]
  dsimp only
  rw [hsteps, List.foldlM_append, hplace]
  show ((files.follow .here name >>= pure) >>= files.readAt) = _
  rw [bind_pure, follow, if_neg (by decide), if_neg (not_or.2 ⟨hends.ne_nil, hdots.1⟩),
    if_neg hdots.2, entry_here hname]
  split_ifs with hmem
  · rfl
  · rw [readAt, Std.TreeMap.getElem?_eq_none hmem]
    rfl

theorem write_of_target? (h : target? path = some name) (text : Text) :
    files.write path text = .ok (files.insert name (.text text)) := by
  obtain ⟨hends, hname⟩ := (target?_eq_some_iff files).1 h
  exact write_eq_ok_iff.2 ⟨.here, name, hends, writeIn_here hname text⟩

theorem eq_of_write (h : files.write path text = .ok files') (hpath : target? path = none) :
    files' = files := by
  obtain ⟨place, name, hends, hwrite⟩ := write_eq_ok_iff.1 h
  have hplace : place ≠ .here := by
    rintro rfl
    have htarget := (target?_eq_some_iff files).2 ⟨hends, length_le_of_writeIn hwrite⟩
    rw [hpath] at htarget
    contradiction
  exact Except.ok.inj (hwrite.symm.trans (writeIn_of_ne_here hwrite hplace files text))

theorem getElem?_write (h : files.write path text = .ok files') (name : Text) :
    files'[name]? = if target? path = some name then some (.text text) else files[name]? := by
  cases hpath : target? path with
  | none => rw [eq_of_write h hpath, if_neg nofun]
  | some other =>
    rw [write_of_target? hpath] at h
    rw [← Except.ok.inj h, Std.TreeMap.getElem?_insert]
    simp

/-- No file goes away. -/
theorem mem_of_write (h : files.write path text = .ok files') (hname : name ∈ files) :
    name ∈ files' := by
  rw [Std.TreeMap.mem_iff_isSome_getElem?] at hname ⊢
  rw [getElem?_write h]
  split_ifs
  · rfl
  · exact hname

/-- Writing leaves other paths writable. -/
theorem exists_write_of_write {other : Text} (hwrite : files.write path text = .ok files')
    (h : ∀ text, ∃ next, files.write other text = .ok next) (text' : Text) :
    ∃ next, files'.write other text' = .ok next := by
  obtain ⟨files₁, h₁⟩ := h text'
  obtain ⟨place, name, hends, hwriteIn⟩ := write_eq_ok_iff.1 h₁
  by_cases hplace : place = .here
  · subst hplace
    exact ⟨_, write_of_target?
      ((target?_eq_some_iff files).2 ⟨hends, length_le_of_writeIn hwriteIn⟩) text'⟩
  · have hends' := hends.of_subset fun name => mem_of_write hwrite
    exact ⟨files', write_eq_ok_iff.2
      ⟨place, name, hends', writeIn_of_ne_here hwriteIn hplace files' text'⟩⟩

/-! ## The directory as a store -/

theorem access_write_iff : access.write path text files = (.ok (), files') ↔
    files.write path text = .ok files' := by
  simp only [access]
  cases files.write path text with
  | ok next => exact ⟨fun h => congrArg Except.ok (Prod.mk.inj h).2, fun h => by rw [Except.ok.inj h]⟩
  | error e => exact ⟨nofun, nofun⟩

/-- A directory without subdirectories, whose files are known by their names. -/
def store : FileStore Files Text where
  access := access
  read := read
  locate _ path := target? path
  content files name := files[name]?
  read_access _ _ := rfl
  read_of_content hpath hcontent := by rw [read_of_target? hpath, readAt, hcontent]
  content_of_write h hpath := by rw [getElem?_write (access_write_iff.1 h), if_pos hpath]
  content_frame h hpath := by rw [getElem?_write (access_write_iff.1 h), if_neg hpath]
  locate_of_write _ _ := rfl
  writable_of_write h hwritable text := by
    simp only [access_write_iff] at h hwritable ⊢
    exact exists_write_of_write h hwritable text

theorem writable_of_target? (h : target? path = some name) : store.Writable files path :=
  fun text => ⟨_, access_write_iff.2 (write_of_target? h text)⟩

theorem apart_of_ne {other : Text} (h : target? path ≠ target? other) :
    store.Apart files path other :=
  fun _ hname hname' => h (hname.trans hname'.symm)

end RefHart.Files
