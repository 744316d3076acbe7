import ThreeAddress.CommandLine.Directory
import ThreeAddress.Proofs.Reading

/-!
# Writing a file

A file that is written can be read under the same path, and no other file changes. The path is walked
once to write and once more to read, and in between the directory has changed: an entry has another
text (`set`), or there is a new one (`add`).

* `walk_induction`: what one step of a walk can be, and what is known of the names on the way.
* `walk_set`: with another text in a file, every path leads to where it led.
* `Vacant.walk_add`: with a new file at a vacant place, the paths to files are those from before and the
  paths to the vacant place.
* `find_write`, `read_write`: **what is written is read back, and all other files stay.**
* `FileSystem`: anything that answers requests and has this in common with a directory.
-/

namespace ThreeAddress.CommandLine

variable {d d' : Directory} {step : List Char} {names : List (List Char)} {name text : String}

/-- What a path leads to, after a file was given another text. -/
def Found.rewritten (name text : String) : Found → Found
  | .file n t => .file n (if n = name then some text else t)
  | found => found

namespace Directory

/-! ## The steps of a path -/

/-- A name that can stand between slashes. -/
def IsStep (s : List Char) : Prop := s ≠ [] ∧ '/' ∉ s

theorem isStep_of_mem_steps {s : List Char} {path : String} (h : s ∈ steps path) : IsStep s := by
  obtain ⟨hmem, hne⟩ := List.mem_filter.1 h
  exact ⟨by simpa using hne, Text.not_mem_of_mem_splitOn hmem⟩

/-- **Names that are joined with slashes** come apart again. -/
theorem steps_joined (hne : names ≠ []) (h : ∀ s ∈ names, IsStep s) : steps (joined names) = names := by
  have hlists : (names.map String.ofList).map String.toList = names := by
    rw [List.map_map]
    exact (List.map_congr_left fun s _ => String.toList_ofList).trans (List.map_id names)
  unfold steps joined
  rw [String.toList_intercalate, hlists]
  have hsplit : (['/'].intercalate names).splitOn '/' = names :=
    List.splitOn_intercalate '/' (fun s hs => (h s hs).2) hne
  show ((['/'].intercalate names).splitOn '/').filter _ = names
  rw [hsplit, List.filter_eq_self]
  intro s hs
  simpa using (h s hs).1

/-! ## One step at a time -/

theorem walk_dot (names path : List (List Char)) : d.walk names (['.'] :: path) = d.walk names path := by
  rw [walk, if_pos rfl]

theorem walk_outside (path : List (List Char)) : d.walk [] (['.', '.'] :: path) = walkOutside path := by
  rw [walk, if_neg (by decide), if_pos rfl, if_pos List.isEmpty_nil]

theorem walk_up (hne : names ≠ []) (path : List (List Char)) :
    d.walk names (['.', '.'] :: path) = d.walk names.dropLast path := by
  rw [walk, if_neg (by decide), if_pos rfl, if_neg (by simpa using hne)]

/-- A step that is a name. -/
theorem walk_name (h : step ≠ ['.']) (h' : step ≠ ['.', '.']) (names path : List (List Char)) :
    d.walk names (step :: path) =
      match d.file? (names ++ [step]) with
      | some f => if path.isEmpty then .file f.1 f.2 else .failure 20
      | none =>
        if d.hasSubdirectory (names ++ [step]) then d.walk (names ++ [step]) path
        else if path.isEmpty then .vacant (joined (names ++ [step])) else .failure 2 := by
  rw [walk, if_neg h, if_neg h']
  cases hfile : d.file? (names ++ [step]) with
  | some f => simp only [hfile]
  | none => simp only [hfile]

/-- Names that lead to a directory, which may be the one they start from. -/
structure Inside (d : Directory) (names : List (List Char)) : Prop where
  isStep : ∀ s ∈ names, IsStep s
  directory : ∀ above, above ≠ [] → above <+: names → d.hasSubdirectory above = true

theorem Inside.nil : d.Inside [] :=
  ⟨fun _ hs => absurd hs List.not_mem_nil, fun _ hne hp => absurd (List.prefix_nil.1 hp) hne⟩

theorem Inside.dropLast (h : d.Inside names) : d.Inside names.dropLast :=
  ⟨fun s hs => h.isStep s (List.dropLast_subset names hs),
    fun above hne hp => h.directory above hne (hp.trans (List.dropLast_prefix names))⟩

theorem Inside.isStep_concat (h : d.Inside names) (hstep : IsStep step) : ∀ s ∈ names ++ [step], IsStep s := by
  intro s hs
  rcases List.mem_append.1 hs with hold | hnew
  · exact h.isStep s hold
  · rw [List.mem_singleton.1 hnew]; exact hstep

theorem Inside.concat (h : d.Inside names) (hstep : IsStep step)
    (hsub : d.hasSubdirectory (names ++ [step]) = true) : d.Inside (names ++ [step]) := by
  refine ⟨h.isStep_concat hstep, ?_⟩
  intro above hne hp
  rcases List.prefix_concat_iff.1 hp with rfl | hp
  · exact hsub
  · exact h.directory above hne hp

/-- **Induction along a walk.** The names on the way lead to a directory all the time, and a walk goes on
from a name only if that is a subdirectory. -/
@[elab_as_elim]
theorem walk_induction {motive : List (List Char) → List (List Char) → Prop}
    (done : ∀ names, motive names [])
    (dot : ∀ names path, motive names path → motive names (['.'] :: path))
    (outside : ∀ path, motive [] (['.', '.'] :: path))
    (up : ∀ names path, names ≠ [] → motive names.dropLast path → motive names (['.', '.'] :: path))
    (name : ∀ names step path, step ≠ ['.'] → step ≠ ['.', '.'] → IsStep step → d.Inside names →
      (d.hasSubdirectory (names ++ [step]) = true → motive (names ++ [step]) path) →
      motive names (step :: path)) :
    ∀ path, (∀ s ∈ path, IsStep s) → ∀ names, d.Inside names → motive names path := by
  intro path
  induction path with
  | nil => intro _ names _; exact done names
  | cons step path ih =>
    intro hpath names hin
    have ih' := ih fun s hs => hpath s (List.mem_cons_of_mem _ hs)
    have hstep : IsStep step := hpath step List.mem_cons_self
    by_cases hdot : step = ['.']
    · rw [hdot]; exact dot names path (ih' names hin)
    · by_cases hup : step = ['.', '.']
      · rw [hup]
        by_cases hne : names = []
        · rw [hne]; exact outside path
        · exact up names path hne (ih' _ hin.dropLast)
      · apply name names step path hdot hup hstep hin
        intro hsub
        exact ih' _ (hin.concat hstep hsub)

/-! ## Another text in a file -/

/-- The directory with another text in the file of the given name. -/
def set (d : Directory) (name text : String) : Directory :=
  ⟨d.files.map fun f => if f.1 = name then (name, some text) else f⟩

theorem steps_set (name text : String) (f : String × Option String) :
    steps (if f.1 = name then (name, some text) else f).1 = steps f.1 := by
  split
  · rename_i h; rw [h]
  · rfl

theorem file?_set (names : List (List Char)) :
    (d.set name text).file? names =
      (d.file? names).map fun f => if f.1 = name then (name, some text) else f := by
  unfold file? set
  rw [List.find?_map]
  congr 2
  funext f
  simp only [Function.comp, steps_set]

theorem hasSubdirectory_set (names : List (List Char)) :
    (d.set name text).hasSubdirectory names = d.hasSubdirectory names := by
  unfold hasSubdirectory set
  rw [List.any_map]
  congr 1
  funext f
  simp only [Function.comp, steps_set]

theorem rewritten_file (f : String × Option String) :
    (Found.file f.1 f.2).rewritten name text =
      .file (if f.1 = name then (name, some text) else f).1
        (if f.1 = name then (name, some text) else f).2 := by
  by_cases h : f.1 = name <;> simp [Found.rewritten, h]

theorem rewritten_walkOutside (path : List (List Char)) :
    (walkOutside path).rewritten name text = walkOutside path := by
  unfold walkOutside
  split <;> rfl

/-- **Every path leads to where it led**, with the other text if it leads to that file. -/
theorem walk_set (name text : String) (path : List (List Char)) (hpath : ∀ s ∈ path, IsStep s)
    (hin : d.Inside names) :
    (d.set name text).walk names path = (d.walk names path).rewritten name text := by
  refine walk_induction ?done ?dot ?outside ?up ?name path hpath names hin
  case done => intro names; rfl
  case dot => intro names path ih; rw [walk_dot, walk_dot, ih]
  case outside => intro path; rw [walk_outside, walk_outside, rewritten_walkOutside]
  case up => intro names path hne ih; rw [walk_up hne, walk_up hne, ih]
  case name =>
    intro names step path hdot hup _ _ ih
    rw [walk_name hdot hup, walk_name hdot hup, file?_set, hasSubdirectory_set]
    cases d.file? (names ++ [step]) with
    | some f =>
      simp only [Option.map_some]
      split
      · exact (rewritten_file f).symm
      · rfl
    | none =>
      simp only [Option.map_none]
      split
      · exact ih (by assumption)
      · split <;> rfl

/-! ## A new file -/

/-- A place where a file can be written that is not there: nothing is in the way, and there is a directory
to put it in. -/
structure Vacant (d : Directory) (name : String) : Prop where
  canonical : joined (steps name) = name
  file : d.file? (steps name) = none
  subdirectory : d.hasSubdirectory (steps name) = false
  directory : ∀ above, above ≠ [] → above <+: steps name → above ≠ steps name →
    d.hasSubdirectory above = true

/-- **A walk that ends where nothing is** ends at a vacant place. -/
theorem vacant_of_walk (path : List (List Char)) (hpath : ∀ s ∈ path, IsStep s) (hin : d.Inside names) :
    d.walk names path = .vacant name → d.Vacant name := by
  refine walk_induction ?done ?dot ?outside ?up ?name path hpath names hin
  case done => intro names h; cases h
  case dot => intro names path ih h; rw [walk_dot] at h; exact ih h
  case outside =>
    intro path h
    rw [walk_outside, walkOutside] at h
    split at h <;> cases h
  case up => intro names path hne ih h; rw [walk_up hne] at h; exact ih h
  case name =>
    intro names step path hdot hup hstep hin ih h
    rw [walk_name hdot hup] at h
    cases hfile : d.file? (names ++ [step]) with
    | some f =>
      rw [hfile] at h
      simp only at h
      split at h <;> cases h
    | none =>
      rw [hfile] at h
      simp only at h
      split at h
      · exact ih (by assumption) h
      · rename_i hsub
        split at h
        · have hname : joined (names ++ [step]) = name := Found.vacant.inj h
          have hsteps : steps name = names ++ [step] := by
            rw [← hname]; exact steps_joined (by simp) (hin.isStep_concat hstep)
          refine ⟨by rw [hsteps, hname], by rw [hsteps, hfile], by rw [hsteps]; simpa using hsub, ?_⟩
          intro above hne hp hother
          rw [hsteps] at hp hother
          rcases List.prefix_concat_iff.1 hp with heq | hp
          · exact absurd heq hother
          · exact hin.directory above hne hp
        · cases h

/-- The directory with one more file. -/
def add (d : Directory) (name text : String) : Directory := ⟨d.files ++ [(name, some text)]⟩

theorem file?_add (names : List (List Char)) :
    (d.add name text).file? names =
      (d.file? names).or (if steps name = names then some (name, some text) else none) := by
  unfold file? add
  rw [List.find?_append, List.find?_singleton]
  simp only [beq_iff_eq]

/-- Every directory on the way to a vacant place is there already. -/
theorem Vacant.hasSubdirectory_add (h : d.Vacant name) (hne : names ≠ []) :
    (d.add name text).hasSubdirectory names = d.hasSubdirectory names := by
  have hadd : (d.add name text).hasSubdirectory names =
      (d.hasSubdirectory names || (names.isPrefixOf (steps name) && steps name != names)) := by
    unfold hasSubdirectory add
    rw [List.any_append, List.any_cons, List.any_nil, Bool.or_false]
  rw [hadd, Bool.or_eq_left_iff_imp]
  intro hbelow
  obtain ⟨hbefore, hother⟩ := Bool.and_eq_true_iff.1 hbelow
  have hother' : names ≠ steps name := fun heq => bne_iff_ne.1 hother heq.symm
  exact h.directory names hne (List.isPrefixOf_iff_prefix.1 hbefore) hother'

/-- **A walk ends at a file of the larger directory** if it ended there before, or at the vacant place. -/
theorem Vacant.walk_add (h : d.Vacant name) (n : String) (t : Option String) (path : List (List Char))
    (hpath : ∀ s ∈ path, IsStep s) (hin : d.Inside names) :
    (d.add name text).walk names path = .file n t ↔
      d.walk names path = .file n t ∨ (d.walk names path = .vacant name ∧ n = name ∧ t = some text) := by
  refine walk_induction ?done ?dot ?outside ?up ?name path hpath names hin
  case done => intro names; simp [walk]
  case dot => intro names path ih; rw [walk_dot, walk_dot]; exact ih
  case outside =>
    intro path
    rw [walk_outside, walk_outside, walkOutside]
    split <;> simp
  case up => intro names path hne ih; rw [walk_up hne, walk_up hne]; exact ih
  case name =>
    intro names step path hdot hup hstep hin ih
    have hne : names ++ [step] ≠ [] := by simp
    rw [walk_name hdot hup, walk_name hdot hup, file?_add, h.hasSubdirectory_add hne]
    cases hfile : d.file? (names ++ [step]) with
    | some f =>
      simp only [Option.some_or]
      split <;> simp
    | none =>
      simp only [Option.none_or]
      by_cases hplace : steps name = names ++ [step]
      · -- the vacant place itself
        have hjoined : joined (names ++ [step]) = name := by rw [← hplace]; exact h.canonical
        have hsub : ¬ d.hasSubdirectory (names ++ [step]) = true := by
          rw [← hplace, h.subdirectory]; exact Bool.false_ne_true
        simp only [if_pos hplace, if_neg hsub, hjoined]
        split
        · simp [eq_comm (a := n), eq_comm (a := t)]
        · simp
      · have hother : joined (names ++ [step]) ≠ name := by
          intro heq
          exact hplace (by rw [← heq, steps_joined hne (hin.isStep_concat hstep)])
        rw [if_neg hplace]
        by_cases hsub : d.hasSubdirectory (names ++ [step]) = true
        · simp only [if_pos hsub]; exact ih hsub
        · simp only [if_neg hsub]
          split <;> simp [hother]

/-! ## Writing -/

/-- A path is walked step by step, unless it is empty or starts elsewhere. -/
theorem find_cases (path : String) :
    (∀ d : Directory, d.find path = d.walk [] (steps path)) ∨
    ∃ found, (∀ d : Directory, d.find path = found) ∧ (found = .directory ∨ ∃ code, found = .failure code) := by
  by_cases hempty : path = ""
  · exact Or.inr ⟨.failure 2, fun d => if_pos hempty, Or.inr ⟨2, rfl⟩⟩
  · by_cases hroot : path.toList.head? = some '/'
    · refine Or.inr ⟨walkOutside (steps path), fun d => by rw [find, if_neg hempty, if_pos hroot], ?_⟩
      unfold walkOutside
      split
      · exact Or.inl rfl
      · exact Or.inr ⟨2, rfl⟩
    · exact Or.inl fun d => by rw [find, if_neg hempty, if_neg hroot]

theorem find_set (name text path : String) :
    (d.set name text).find path = (d.find path).rewritten name text := by
  rcases find_cases path with hwalk | ⟨found, hfound, rfl | ⟨code, rfl⟩⟩
  · rw [hwalk, hwalk]
    exact walk_set name text (steps path) (fun _ => isStep_of_mem_steps) .nil
  · rw [hfound, hfound]; rfl
  · rw [hfound, hfound]; rfl

theorem vacant_of_find {path : String} (h : d.find path = .vacant name) : d.Vacant name := by
  rcases find_cases path with hwalk | ⟨found, hfound, rfl | ⟨code, rfl⟩⟩
  · rw [hwalk] at h
    exact vacant_of_walk (steps path) (fun _ => isStep_of_mem_steps) .nil h
  · rw [hfound] at h; cases h
  · rw [hfound] at h; cases h

theorem Vacant.find_add (h : d.Vacant name) (n : String) (t : Option String) (path : String) :
    (d.add name text).find path = .file n t ↔
      d.find path = .file n t ∨ (d.find path = .vacant name ∧ n = name ∧ t = some text) := by
  rcases find_cases path with hwalk | ⟨found, hfound, rfl | ⟨code, rfl⟩⟩
  · rw [hwalk, hwalk]
    exact h.walk_add n t (steps path) (fun _ => isStep_of_mem_steps) .nil
  · simp [hfound]
  · simp [hfound]

/-- **Everything that writing can do.** -/
theorem write_cases {path : String} (h : d.write path text = .ok d') :
    endsInSlash path = false ∧
    ((∃ name old, d.find path = .file name old ∧ d' = d.set name text) ∨
      ∃ name, d.find path = .vacant name ∧ d' = d.add name text) := by
  unfold write at h
  split at h
  · rename_i name old hfind
    split at h
    · cases h
    · rename_i hslash
      exact ⟨by simpa using hslash, Or.inl ⟨name, old, hfind, (Except.ok.inj h).symm⟩⟩
  · rename_i name hfind
    split at h
    · cases h
    · rename_i hslash
      exact ⟨by simpa using hslash, Or.inr ⟨name, hfind, (Except.ok.inj h).symm⟩⟩
  · cases h
  · cases h

/-- **What is written is there under the same path**, and every other file is where it was and as it was. -/
theorem find_write {path : String} (h : d.write path text = .ok d') :
    ∃ name, d'.find path = .file name (some text) ∧
      ∀ other n t, n ≠ name → (d'.find other = .file n t ↔ d.find other = .file n t) := by
  obtain ⟨-, ⟨name, old, hfind, rfl⟩ | ⟨name, hfind, rfl⟩⟩ := write_cases h
  · refine ⟨name, by rw [find_set, hfind]; simp [Found.rewritten], ?_⟩
    intro other n t hne
    rw [find_set]
    cases hother : d.find other with
    | file m u =>
      by_cases hm : m = name
      · have hmn : m ≠ n := fun heq => hne (heq.symm.trans hm)
        simp [Found.rewritten, hmn]
      · simp [Found.rewritten, hm]
    | _ => simp [Found.rewritten]
  · have hvacant := vacant_of_find hfind
    refine ⟨name, (hvacant.find_add name (some text) path).2 (Or.inr ⟨hfind, rfl, rfl⟩), ?_⟩
    intro other n t hne
    rw [hvacant.find_add]
    constructor
    · rintro (hold | ⟨-, heq, -⟩)
      · exact hold
      · exact absurd heq hne
    · exact Or.inl

theorem read_write {path : String} (h : d.write path text = .ok d') : d'.read path = .ok text := by
  obtain ⟨name, hfind, -⟩ := find_write h
  have hslash := (write_cases h).1
  unfold read
  rw [hfind, hslash]
  rfl

end Directory

/-- A **file system** answers requests, and its paths lead to files. What is written is read back under the
same path, and every other file is where it was and as it was. -/
structure FileSystem (σ : Type) extends Answers σ where
  find : σ → String → Found
  read_write : ∀ {s s' : σ} {path text : String}, write s path text = .ok s' → read s' path = .ok text
  find_write : ∀ {s s' : σ} {path text : String}, write s path text = .ok s' →
    ∃ name, find s' path = .file name (some text) ∧
      ∀ other n t, n ≠ name → (find s' other = .file n t ↔ find s other = .file n t)

/-- A directory is a file system. -/
def Directory.fileSystem : FileSystem Directory where
  toAnswers := Directory.answers
  find := Directory.find
  read_write := Directory.read_write
  find_write := Directory.find_write

end ThreeAddress.CommandLine
