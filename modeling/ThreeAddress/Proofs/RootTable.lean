import ThreeAddress.Proofs.Readers

/-!
# The root table of a document

The root table comes to be step by step: each assignment before the first header is a step, and so is each
section. What a step can do to it is said once (`Extends`), and the rest follows from that.

* `Extends`: **a step gives an entry a new value or puts one at the end**, and only a header `[name]` can take
  an entry that was there to the end.
* `tidy_document?`: the names in the table are those that the steps are about, each with one entry, and an
  integer among the values has 64 bits.
* `keys_document?`: **where no entry is taken to the end, the keys of the table are those of the steps, each at
  its first mention** (`firsts`, `Unmoved`).
* `placed_statement`, `placed_upTo`, `rootKeys_of_statements`: the keys that are read stand one after the other
  in the text.
-/

namespace ThreeAddress.Settings

open Reader

/-- Not an integer, or one of 64 bits. -/
def Node.Fits (node : Node) : Prop := ∀ n, node = .integer n → -2 ^ 63 ≤ n ∧ n ≤ 2 ^ 63 - 1

/-- The key of a header. -/
def Header.path : Header → Path
  | table path => path
  | element path => path

/-- The keys of a table, in order. -/
def Entries.keys (entries : Entries) : List Key := entries.map fun e => e.1

/-- The names in a table, in order. -/
def Entries.names (entries : Entries) : List String := entries.keys.map Key.name

variable {key : Key} {entries entries' : Entries} {cs rest : List Char}

/-! ## One step -/

/-- **What a step under a key can do** to a table: the entry with the name of the key gets a new value, or one
is put at the end if there is none. A step that moves entries may also put the entry at the end. -/
inductive Extends (moves : Prop) (key : Key) (entries : Entries) : Entries → Prop
  | replaced (hname : key.name ∈ entries.names) (span : Span) {node : Node} (h : node.Fits) :
    Extends moves key entries (entries.replace key.name span node)
  | added (hname : key.name ∉ entries.names) (span : Span) {node : Node} (h : node.Fits) :
    Extends moves key entries (entries ++ [(key, span, node)])
  | moved (hmoves : moves) (hname : key.name ∈ entries.names) (span : Span) {node : Node} (h : node.Fits) :
    Extends moves key entries (entries.erase key.name ++ [(key, span, node)])

theorem fits_table (origin : Origin) (inner : Entries) : (Node.table origin inner).Fits := nofun

theorem fits_tables (elements : List Entries) : (Node.tables elements).Fits := nofun

theorem erase_of_absent (h : entries.find? key.name = none) : entries.erase key.name = entries := by
  unfold Entries.find? at h
  unfold Entries.erase
  rw [List.filter_eq_self]
  intro e he
  simpa using List.find?_eq_none.1 h e he

theorem mem_names_of_find? {name : String} {e : Key × Span × Node} (h : entries.find? name = some e) :
    name ∈ entries.names := by
  unfold Entries.find? at h
  have hname : e.1.name = name := by simpa using List.find?_some h
  rw [← hname]
  exact List.mem_map_of_mem (List.mem_map_of_mem (List.mem_of_find?_eq_some h))

theorem not_mem_names_of_find? {name : String} (h : entries.find? name = none) : name ∉ entries.names := by
  unfold Entries.find? at h
  intro hmem
  obtain ⟨key, hkey, rfl⟩ := List.mem_map.1 hmem
  obtain ⟨e, he, rfl⟩ := List.mem_map.1 hkey
  simpa using List.find?_eq_none.1 h e he

/-- A change at the end of a path is a step under the first part of the path: if there are more parts, a
table under the first one is changed. -/
theorem extends_alter {moves : Prop} {viaHeader : Bool} {change : Origin → Entries → Option Entries} {p : Path}
    {origin : Origin}
    (hlast : p.parents = [] → ∀ e, change origin entries = some e → Extends moves p.last entries e)
    (h : Entries.alter viaHeader change p.parents origin entries = some entries') :
    Extends moves p.root entries entries' := by
  unfold Path.root
  cases hparents : p.parents with
  | nil =>
    rw [hparents] at h
    exact hlast hparents entries' h
  | cons first parents =>
    rw [hparents] at h
    unfold Entries.alter at h
    simp only at h
    split at h
    · rename_i habsent
      obtain ⟨inner, -, rfl⟩ := Option.map_eq_some_iff.1 h
      exact .added (not_mem_names_of_find? habsent) _ (fits_table _ _)
    · rename_i hfound
      split at h
      · obtain ⟨inner, -, rfl⟩ := Option.map_eq_some_iff.1 h
        exact .replaced (mem_names_of_find? hfound) _ (fits_table _ _)
      · cases h
    · rename_i hfound
      obtain ⟨inner, -, rfl⟩ := Option.map_eq_some_iff.1 h
      exact .replaced (mem_names_of_find? hfound) _ (fits_tables _)
    · cases h

theorem extends_assign {a : Assignment} (hfits : a.value.Fits)
    (h : assign .header entries a = some entries') : Extends False a.path.root entries entries' := by
  refine extends_alter ?_ h
  intro hparents e he
  rw [hparents] at he
  cases hfind : entries.find? a.path.last.name with
  | some found =>
    rw [hfind] at he
    cases he
  | none =>
    rw [hfind] at he
    cases he
    exact .added (not_mem_names_of_find? hfind) _ hfits

theorem extends_defineTable {s : Section} (h : defineTable key s entries = some entries') :
    Extends True key entries entries' := by
  unfold defineTable at h
  simp only at h
  split at h
  · rename_i habsent
    obtain ⟨inner, -, rfl⟩ := Option.map_eq_some_iff.1 h
    rw [erase_of_absent habsent]
    exact .added (not_mem_names_of_find? habsent) _ (fits_table _ _)
  · rename_i hfound
    obtain ⟨inner, -, rfl⟩ := Option.map_eq_some_iff.1 h
    exact .moved trivial (mem_names_of_find? hfound) _ (fits_table _ _)
  · cases h

theorem extends_addElement {moves : Prop} {s : Section} (h : addElement key s entries = some entries') :
    Extends moves key entries entries' := by
  unfold addElement at h
  split at h
  · rename_i habsent
    obtain ⟨inner, -, rfl⟩ := Option.map_eq_some_iff.1 h
    exact .added (not_mem_names_of_find? habsent) _ (fits_tables _)
  · rename_i hfound
    obtain ⟨inner, -, rfl⟩ := Option.map_eq_some_iff.1 h
    exact .replaced (mem_names_of_find? hfound) _ (fits_tables _)
  · cases h

/-- The section starts with a header `[name]`, so it may define a table that is there already. -/
def Section.Defines (s : Section) : Prop := ∃ key, s.header = .table ⟨[], key⟩

theorem extends_addSection {s : Section} (h : addSection entries s = some entries') :
    Extends s.Defines s.header.path.root entries entries' := by
  unfold addSection at h
  split at h
  · rename_i path hheader
    rw [hheader]
    refine extends_alter ?_ h
    intro hparents e he
    have hdefines : s.Defines := ⟨path.last, by rw [hheader, ← hparents]; rfl⟩
    rw [eq_true hdefines]
    exact extends_defineTable he
  · rename_i path hheader
    rw [hheader]
    exact extends_alter (fun _ e he => extends_addElement he) h

/-! ## All steps -/

/-- What every step keeps: each name has one entry, and integers have 64 bits. -/
structure Entries.Tidy (entries : Entries) : Prop where
  nodup : entries.names.Nodup
  fits : ∀ e ∈ entries, e.2.2.Fits

theorem keys_replace (name : String) (span : Span) (node : Node) :
    (entries.replace name span node).keys = entries.keys := by
  unfold Entries.replace Entries.keys
  rw [List.map_map]
  apply List.map_congr_left
  intro e _
  simp only [Function.comp]
  split
  · rfl
  · rfl

theorem keys_append_singleton (span : Span) (node : Node) :
    (entries ++ [(key, span, node)] : Entries).keys = entries.keys ++ [key] := by
  unfold Entries.keys
  rw [List.map_append]; rfl

theorem names_append_singleton (span : Span) (node : Node) :
    (entries ++ [(key, span, node)] : Entries).names = entries.names ++ [key.name] := by
  unfold Entries.names
  rw [keys_append_singleton, List.map_append]; rfl

theorem mem_names_erase {name name' : String} :
    name' ∈ (entries.erase name).names ↔ name' ∈ entries.names ∧ name' ≠ name := by
  unfold Entries.names Entries.keys Entries.erase
  simp only [List.map_map, List.mem_map, List.mem_filter, Function.comp, bne_iff_ne]
  constructor
  · rintro ⟨e, ⟨he, hne⟩, rfl⟩
    exact ⟨⟨e, he, rfl⟩, hne⟩
  · rintro ⟨⟨e, he, rfl⟩, hne⟩
    exact ⟨e, ⟨he, hne⟩, rfl⟩

section Step

variable {moves : Prop}

/-- No name is lost, and the name of the step is there after it. -/
theorem Extends.mem_names (h : Extends moves key entries entries') (name : String) :
    name ∈ entries'.names ↔ name ∈ entries.names ∨ name = key.name := by
  cases h with
  | replaced hname span _ =>
    unfold Entries.names at hname ⊢
    rw [keys_replace]
    exact ⟨.inl, fun h => h.elim id fun heq => heq ▸ hname⟩
  | added hname span _ => rw [names_append_singleton, List.mem_append, List.mem_singleton]
  | moved hmoves hname span _ =>
    rw [names_append_singleton, List.mem_append, mem_names_erase, List.mem_singleton]
    by_cases heq : name = key.name
    · simp [heq]
    · simp [heq]

/-- A step puts a key at the end if its name was not there, and leaves the keys as they are otherwise, unless
it moves an entry. -/
theorem Extends.keys_eq (h : Extends moves key entries entries') (hstays : moves → key.name ∉ entries.names) :
    entries'.keys = entries.keys ++ if key.name ∈ entries.names then [] else [key] := by
  cases h with
  | replaced hname span _ => rw [keys_replace, if_pos hname, List.append_nil]
  | added hname span _ => rw [keys_append_singleton, if_neg hname]
  | moved hmoves hname span _ => exact absurd hname (hstays hmoves)

theorem Entries.Tidy.append_singleton {span : Span} {node : Node} (ht : entries.Tidy) (hnode : node.Fits)
    (hname : key.name ∉ entries.names) : Entries.Tidy (entries ++ [(key, span, node)]) := by
  constructor
  · rw [names_append_singleton, List.nodup_append_comm]
    exact List.nodup_cons.2 ⟨hname, ht.nodup⟩
  · intro e he
    rcases List.mem_append.1 he with he | he
    · exact ht.fits e he
    · rw [List.mem_singleton.1 he]
      exact hnode

theorem Extends.tidy (h : Extends moves key entries entries') (ht : entries.Tidy) : entries'.Tidy := by
  cases h with
  | replaced hname span hnode =>
    refine ⟨by unfold Entries.names; rw [keys_replace]; exact ht.nodup, ?_⟩
    intro e he
    obtain ⟨e₀, he₀, rfl⟩ := List.mem_map.1 he
    split
    · exact hnode
    · exact ht.fits e₀ he₀
  | added hname span hnode => exact ht.append_singleton hnode hname
  | moved hmoves hname span hnode =>
    have herase : (entries.erase key.name).Tidy :=
      ⟨ht.nodup.sublist ((List.filter_sublist.map _).map _), fun e he => ht.fits e (List.mem_of_mem_filter he)⟩
    exact herase.append_singleton hnode fun h => (mem_names_erase.1 h).2 rfl

end Step

/-- The keys without those whose name came before. -/
def firsts : List Key → List Key
  | [] => []
  | key :: keys => key :: (firsts keys).filter fun k => k.name ≠ key.name

theorem firsts_sublist (keys : List Key) : (firsts keys).Sublist keys := by
  induction keys with
  | nil => exact .slnil
  | cons key keys ih => exact (List.filter_sublist.trans ih).cons_cons key

theorem nodup_firsts (keys : List Key) : ((firsts keys).map Key.name).Nodup := by
  induction keys with
  | nil => exact List.nodup_nil
  | cons key keys ih =>
    refine List.nodup_cons.2 ⟨?_, ih.sublist (List.filter_sublist.map _)⟩
    rintro h
    obtain ⟨k, hk, hname⟩ := List.mem_map.1 h
    exact of_decide_eq_true (List.mem_filter.1 hk).2 hname

theorem firsts_append (keys keys' : List Key) :
    firsts (keys ++ keys') = firsts keys ++ (firsts keys').filter fun k => k.name ∉ keys.map Key.name := by
  induction keys with
  | nil => simp [firsts]
  | cons key keys ih =>
    simp only [List.cons_append, firsts, ih, List.filter_append, List.filter_filter, List.cons.injEq, true_and]
    congr 1
    apply List.filter_congr
    intro k _
    simp [not_or]

section Run

variable {σ : Type} {step : Entries → σ → Option Entries} {keyOf : σ → Key} {moves : σ → Prop} {xs : List σ}

/-- Each of `xs` is a step, under a key of its own. -/
def Steps (step : Entries → σ → Option Entries) (keyOf : σ → Key) (moves : σ → Prop) (xs : List σ) : Prop :=
  ∀ x ∈ xs, ∀ entries entries', step entries x = some entries' → Extends (moves x) (keyOf x) entries entries'

theorem steps_assign {top : List Assignment} (hfits : ∀ a ∈ top, a.value.Fits) :
    Steps (assign .header) (fun a => a.path.root) (fun _ => False) top :=
  fun a ha _ _ h => extends_assign (hfits a ha) h

theorem steps_addSection (below : List Section) :
    Steps addSection (fun s => s.header.path.root) Section.Defines below :=
  fun _ _ _ _ h => extends_addSection h

/-- **All steps**: a tidy table stays tidy, and exactly the names of the steps come in. -/
theorem Steps.tidy (hsteps : Steps step keyOf moves xs) :
    ∀ {entries}, entries.Tidy → xs.foldlM step entries = some entries' →
      entries'.Tidy ∧
        ∀ name, name ∈ entries'.names ↔ name ∈ entries.names ∨ name ∈ (xs.map keyOf).map Key.name := by
  induction xs with
  | nil =>
    intro entries ht h
    cases h
    exact ⟨ht, by simp⟩
  | cons x xs ih =>
    intro entries ht h
    rw [List.foldlM_cons] at h
    obtain ⟨mid, hfirst, hrest⟩ := Option.bind_eq_some_iff.1 h
    obtain ⟨hext, hsteps⟩ := List.forall_mem_cons.1 hsteps
    replace hext := hext entries mid hfirst
    obtain ⟨htidy, hnames⟩ := ih hsteps (hext.tidy ht) hrest
    refine ⟨htidy, fun name => ?_⟩
    rw [hnames, hext.mem_names, List.map_cons, List.map_cons, List.mem_cons, or_assoc]

/-- **All steps, where none moves an entry**: the keys whose names are new come in at the end, each at its first
mention. -/
theorem Steps.keys_eq (hsteps : Steps step keyOf moves xs)
    (hlater : xs.Pairwise fun x y => moves y → (keyOf y).name ≠ (keyOf x).name) :
    ∀ {entries}, (∀ x ∈ xs, moves x → (keyOf x).name ∉ entries.names) →
      xs.foldlM step entries = some entries' →
      entries'.keys = entries.keys ++ (firsts (xs.map keyOf)).filter fun k => k.name ∉ entries.names := by
  induction xs with
  | nil =>
    intro entries _ h
    cases h
    simp [firsts]
  | cons x xs ih =>
    intro entries hstays h
    rw [List.foldlM_cons] at h
    obtain ⟨mid, hfirst, hrest⟩ := Option.bind_eq_some_iff.1 h
    obtain ⟨hx, hlater⟩ := List.pairwise_cons.1 hlater
    obtain ⟨hhead, htail⟩ := List.forall_mem_cons.1 hstays
    obtain ⟨hext, hsteps⟩ := List.forall_mem_cons.1 hsteps
    replace hext := hext entries mid hfirst
    have hstays' : ∀ y ∈ xs, moves y → (keyOf y).name ∉ mid.names := by
      intro y hy hmoves hmem
      obtain hmem | hmem := (hext.mem_names _).1 hmem
      · exact htail y hy hmoves hmem
      · exact hx y hy hmoves hmem
    rw [ih hsteps hlater hstays' hrest, hext.keys_eq hhead,
      List.map_cons, firsts, List.append_assoc, List.filter_cons, List.filter_filter]
    -- a later key is new to the table after the step if it is new before it and has another name
    have hfilter : ((firsts (xs.map keyOf)).filter fun k => k.name ∉ mid.names) =
        (firsts (xs.map keyOf)).filter fun k => decide (k.name ∉ entries.names) && decide (k.name ≠ (keyOf x).name) := by
      apply List.filter_congr
      intro k _
      simp [hext.mem_names]
    rw [hfilter]
    by_cases hname : (keyOf x).name ∈ entries.names
    · simp [hname]
    · simp [hname]

end Run

/-- The keys that the parts of a document put something under in its root table. -/
def rootKeys (top : List Assignment) (below : List Section) : List Key :=
  top.map (fun a => a.path.root) ++ below.map fun s => s.header.path.root

section Parts

variable {top : List Assignment} {below : List Section}

theorem tidy_nil : Entries.Tidy [] := ⟨List.nodup_nil, List.forall_mem_nil _⟩

theorem tidy_assignAll (hfits : ∀ a ∈ top, a.value.Fits) (h : assignAll .header [] top = some entries) :
    entries.Tidy ∧ ∀ name, name ∈ entries.names ↔ name ∈ (top.map fun a => a.path.root).map Key.name := by
  obtain ⟨htidy, hnames⟩ := (steps_assign hfits).tidy tidy_nil h
  exact ⟨htidy, fun name => (hnames name).trans (or_iff_right nofun)⟩

theorem keys_assignAll (hfits : ∀ a ∈ top, a.value.Fits) (h : assignAll .header [] top = some entries) :
    entries.keys = firsts (top.map fun a => a.path.root) := by
  rw [(steps_assign hfits).keys_eq (List.pairwise_of_forall nofun) (fun _ _ => nofun) h]
  exact List.filter_eq_self.2 fun _ _ => by simp [Entries.names, Entries.keys]

theorem tidy_document? (hfits : ∀ a ∈ top, a.value.Fits) (h : document? top below = some entries) :
    entries.Tidy ∧ ∀ name, name ∈ entries.names ↔ name ∈ (rootKeys top below).map Key.name := by
  obtain ⟨mid, htop, hbelow⟩ := Option.bind_eq_some_iff.1 h
  obtain ⟨hmid, hnames⟩ := tidy_assignAll hfits htop
  obtain ⟨htidy, hnames'⟩ := (steps_addSection below).tidy hmid hbelow
  refine ⟨htidy, fun name => ?_⟩
  rw [hnames', hnames, rootKeys, List.map_append, List.mem_append]

/-- **No entry is taken to the end**: no header `[name]` names a key that was mentioned before. -/
structure Unmoved (top : List Assignment) (below : List Section) : Prop where
  top : ∀ s ∈ below, s.Defines → s.header.path.root.name ∉ (top.map fun a => a.path.root).map Key.name
  below : below.Pairwise fun s s' => s'.Defines → s'.header.path.root.name ≠ s.header.path.root.name

theorem keys_document? (hfits : ∀ a ∈ top, a.value.Fits) (hunmoved : Unmoved top below)
    (h : document? top below = some entries) : entries.keys = firsts (rootKeys top below) := by
  obtain ⟨mid, htop, hbelow⟩ := Option.bind_eq_some_iff.1 h
  obtain ⟨-, hnames⟩ := tidy_assignAll hfits htop
  rw [(steps_addSection below).keys_eq hunmoved.below
    (fun s hs hdefines hmem => hunmoved.top s hs hdefines ((hnames _).1 hmem)) hbelow,
    keys_assignAll hfits htop, rootKeys, firsts_append]
  congr 1
  apply List.filter_congr
  intro k _
  exact decide_eq_decide.2 (not_congr (hnames k.name))

end Parts

/-! ## Keys in the text -/

/-- A key **stands between** two places of a text: at or after the place where `cs` is left, and before the
place where `rest` is left. -/
structure Key.Between (key : Key) (cs rest : List Char) : Prop where
  start_le : key.span.start ≤ cs.length
  lt_start : rest.length < key.span.start

theorem Key.Between.mono {cs' rest' : List Char} (h : key.Between cs rest) (hcs : cs <:+ cs')
    (hrest : rest' <:+ rest) : key.Between cs' rest' :=
  ⟨h.start_le.trans hcs.length_le, hrest.length_le.trans_lt h.lt_start⟩

theorem between_keyPart (h : keyPart cs = some (key, rest)) : key.Between cs rest := by
  unfold keyPart at h
  obtain ⟨_, text₁, hbefore, h⟩ := bind_eq_some_iff.1 h
  obtain ⟨named, text₂, hname, h⟩ := bind_eq_some_iff.1 h
  obtain ⟨_, text₃, hafter, h⟩ := bind_eq_some_iff.1 h
  cases h
  have hspan := (located_eq_some hname).2
  have hlt := Advances.length_lt hname
  have hstart : named.2.start = text₁.length := by rw [hspan]
  have hkey : Key.Between ⟨named.1, named.2⟩ text₁ text₂ := ⟨hstart.le, by rw [hstart]; exact hlt⟩
  exact hkey.mono (Forward.suffix hbefore) (Forward.suffix hafter)

theorem between_path {p : Path} (h : path cs = some (p, rest)) : p.root.Between cs rest := by
  obtain ⟨mid, parts, hfirst, hparts⟩ := path_eq_some h
  exact (between_keyPart hfirst).mono List.suffix_rfl (Forward.suffix hparts)

theorem between_header {found : Header} (h : header cs = some (found, rest)) :
    found.path.root.Between cs rest := by
  unfold header at h
  rcases orElse_eq_some h with h | h
  all_goals
    obtain ⟨_, text₁, hopen, h⟩ := bind_eq_some_iff.1 h
    obtain ⟨p, text₂, hpath, h⟩ := bind_eq_some_iff.1 h
    obtain ⟨_, text₃, hclose, h⟩ := bind_eq_some_iff.1 h
    cases h
    exact (between_path hpath).mono (Forward.suffix hopen) (Forward.suffix hclose)

/-- What an assignment is read from: a key, and a value behind it. -/
theorem assignment_eq_some {r : Reader Node} [Forward r] {a : Assignment}
    (h : assignment r cs = some (a, rest)) :
    a.path.root.Between cs rest ∧ ∃ text, r text = some (a.value, rest) := by
  unfold assignment at h
  obtain ⟨p, text₁, hpath, h⟩ := bind_eq_some_iff.1 h
  obtain ⟨_, text₂, hequals, h⟩ := bind_eq_some_iff.1 h
  obtain ⟨_, text₃, hblanks, h⟩ := bind_eq_some_iff.1 h
  obtain ⟨found, text₄, hvalue, h⟩ := bind_eq_some_iff.1 h
  cases h
  have hrest : rest <:+ text₁ :=
    (Forward.suffix hvalue).trans ((Forward.suffix hblanks).trans (Forward.suffix hequals))
  exact ⟨(between_path hpath).mono List.suffix_rfl hrest, text₃, (located_eq_some hvalue).1⟩

/-! ## Integers have 64 bits -/

theorem int64_eq_some {m n : ℤ} (h : int64 m cs = some (n, rest)) : -2 ^ 63 ≤ n ∧ n ≤ 2 ^ 63 - 1 := by
  unfold int64 at h
  split at h
  · rename_i hbounds
    cases h
    exact ⟨by omega, by omega⟩
  · cases h

theorem integer_eq_some {n : ℤ} (h : integer cs = some (n, rest)) : -2 ^ 63 ≤ n ∧ n ≤ 2 ^ 63 - 1 := by
  have hbased : ∀ {mark base isDigit}, basedInteger mark base isDigit cs = some (n, rest) →
      -2 ^ 63 ≤ n ∧ n ≤ 2 ^ 63 - 1 := by
    intro mark base isDigit hread
    unfold basedInteger at hread
    obtain ⟨_, text₁, -, hread⟩ := bind_eq_some_iff.1 hread
    obtain ⟨ds, text₂, -, hread⟩ := bind_eq_some_iff.1 hread
    exact int64_eq_some hread
  unfold integer at h
  rcases orElse_eq_some h with h | h
  · exact hbased h
  rcases orElse_eq_some h with h | h
  · exact hbased h
  rcases orElse_eq_some h with h | h
  · exact hbased h
  obtain ⟨negative, text₁, -, h⟩ := bind_eq_some_iff.1 h
  obtain ⟨ds, text₂, -, h⟩ := bind_eq_some_iff.1 h
  exact int64_eq_some h

theorem fits_scalar {node : Node} (h : scalar cs = some (node, rest)) : node.Fits := by
  unfold scalar at h
  rcases orElse_eq_some h with h | h
  · obtain ⟨text, -, rfl⟩ := map_eq_some h
    exact nofun
  rcases orElse_eq_some h with h | h
  · obtain ⟨_, left, -, h⟩ := bind_eq_some_iff.1 h
    cases h
    exact nofun
  rcases orElse_eq_some h with h | h
  · obtain ⟨x, -, rfl⟩ := map_eq_some h
    exact nofun
  rcases orElse_eq_some h with h | h
  · obtain ⟨m, hread, rfl⟩ := map_eq_some h
    intro n hn
    obtain rfl : m = n := Node.integer.inj hn
    exact integer_eq_some hread
  -- the truth values
  rcases orElse_eq_some h with h | h
  all_goals
    obtain ⟨_, left, -, h⟩ := bind_eq_some_iff.1 h
    cases h
    exact nofun

theorem array_eq_some {r : Reader Node} {node : Node} (h : array r cs = some (node, rest)) :
    ∃ items, node = .array items := by
  unfold array at h
  obtain ⟨_, text₁, -, h⟩ := bind_eq_some_iff.1 h
  obtain ⟨_, text₂, -, h⟩ := bind_eq_some_iff.1 h
  obtain ⟨items, text₃, -, h⟩ := bind_eq_some_iff.1 h
  obtain ⟨_, text₄, -, h⟩ := bind_eq_some_iff.1 h
  obtain ⟨_, text₅, -, h⟩ := bind_eq_some_iff.1 h
  cases h
  exact ⟨_, rfl⟩

theorem fits_value {node : Node} (depth : ℕ) (h : value depth cs = some (node, rest)) : node.Fits := by
  cases depth with
  | zero => exact fits_scalar h
  | succ depth =>
    unfold value at h
    rcases orElse_eq_some h with h | h
    · exact fits_scalar h
    rcases orElse_eq_some h with h | h
    · obtain ⟨items, rfl⟩ := array_eq_some h
      exact nofun
    · obtain ⟨⟨entries, rfl⟩, -⟩ := inlineTable_eq_some h
      exact nofun

/-! ## Statements and documents -/

/-- The key of the root table that a statement is about, if it is about one. An assignment below a header
is about the table of the header, so its own key is not one of the root table. -/
def Statement.key? : Statement → Option Key
  | nothing => none
  | assign a => some a.path.root
  | header h _ => some h.path.root

/-- What is known of a statement that was read. -/
structure Statement.Placed (s : Statement) (cs rest : List Char) : Prop where
  key : ∀ key ∈ s.key?, key.Between cs rest
  fits : ∀ a, s = .assign a → a.value.Fits

theorem placed_statement {s : Statement} (h : statement cs = some (s, rest)) : s.Placed cs rest := by
  have hnothing : Statement.nothing.Placed cs rest := ⟨nofun, nofun⟩
  unfold statement at h
  obtain ⟨_, text, hblanks, h⟩ := bind_eq_some_iff.1 h
  rcases orElse_eq_some h with h | h
  · obtain ⟨_, text₁, -, h⟩ := bind_eq_some_iff.1 h
    cases h
    exact hnothing
  rcases orElse_eq_some h with h | h
  · obtain ⟨_, text₁, -, h⟩ := bind_eq_some_iff.1 h
    obtain ⟨_, text₂, -, h⟩ := bind_eq_some_iff.1 h
    cases h
    exact hnothing
  rcases orElse_eq_some h with h | h
  · obtain ⟨found, text₁, hheader, h⟩ := bind_eq_some_iff.1 h
    obtain ⟨_, text₂, htrailing, h⟩ := bind_eq_some_iff.1 h
    cases h
    refine ⟨?_, nofun⟩
    rintro _ ⟨rfl⟩
    exact (between_header (located_eq_some hheader).1).mono (Forward.suffix hblanks)
      (Forward.suffix htrailing)
  · obtain ⟨a, text₁, hassign, h⟩ := bind_eq_some_iff.1 h
    obtain ⟨_, text₂, htrailing, h⟩ := bind_eq_some_iff.1 h
    cases h
    obtain ⟨hkey, text₃, hvalue⟩ := assignment_eq_some hassign
    constructor
    · rintro _ ⟨rfl⟩
      exact hkey.mono (Forward.suffix hblanks) (Forward.suffix htrailing)
    · rintro _ ⟨rfl⟩
      exact fits_value _ hvalue

/-- The first key stands before the second one: at its start more of the text is left. -/
def Key.Precedes (key key' : Key) : Prop := key'.span.start < key.span.start

/-- **The keys that are read stand one after the other**, all in what was left of the text. -/
theorem placed_upTo (n : ℕ) : ∀ {cs rest found}, upTo statement n cs = some (found, rest) →
    (found.filterMap Statement.key?).Pairwise Key.Precedes ∧
    (∀ key ∈ found.filterMap Statement.key?, key.span.start ≤ cs.length) ∧
    ∀ a, .assign a ∈ found → a.value.Fits := by
  induction n with
  | zero =>
    intro cs rest found h
    cases h
    exact ⟨.nil, nofun, nofun⟩
  | succ n ih =>
    intro cs rest found h
    cases hread : statement cs with
    | none =>
      rw [upTo_of_none hread] at h
      cases h
      exact ⟨.nil, nofun, nofun⟩
    | some p =>
      obtain ⟨s, left⟩ := p
      rw [upTo_of_some hread] at h
      obtain ⟨⟨later, left'⟩, hlater, heq⟩ := Option.map_eq_some_iff.1 h
      cases heq
      obtain ⟨hpairs, hstarts, hfits⟩ := ih hlater
      have hplaced := placed_statement hread
      have hle : left.length ≤ cs.length := Forward.length_le hread
      have hassigned : ∀ a, .assign a ∈ s :: later → a.value.Fits := by
        intro a ha
        rcases List.mem_cons.1 ha with ha | ha
        · exact hplaced.fits a ha.symm
        · exact hfits a ha
      cases hkey : s.key? with
      | none =>
        rw [List.filterMap_cons_none hkey]
        exact ⟨hpairs, fun key hk => (hstarts key hk).trans hle, hassigned⟩
      | some first =>
        rw [List.filterMap_cons_some hkey]
        have hbetween := hplaced.key first hkey
        refine ⟨List.pairwise_cons.2 ⟨?_, hpairs⟩, ?_, hassigned⟩
        · intro key hk
          exact (hstarts key hk).trans_lt hbetween.lt_start
        · intro key hk
          rcases List.mem_cons.1 hk with rfl | hk
          · exact hbetween.start_le
          · exact (hstarts key hk).trans hle

/-- The keys of the assignments before the first header and of the sections, in the order of the text. -/
theorem sections_sublist (found : List Statement) :
    (rootKeys (sections found).1 (sections found).2).Sublist (found.filterMap Statement.key?) ∧
    ∀ a ∈ (sections found).1, .assign a ∈ found := by
  induction found with
  | nil => exact ⟨.slnil, nofun⟩
  | cons s found ih =>
    obtain ⟨hsub, hmem⟩ := ih
    cases s with
    | nothing => exact ⟨hsub, fun a ha => List.mem_cons_of_mem _ (hmem a ha)⟩
    | assign a =>
      refine ⟨hsub.cons_cons _, ?_⟩
      intro a' ha'
      rcases List.mem_cons.1 ha' with rfl | ha'
      · exact List.mem_cons_self
      · exact List.mem_cons_of_mem _ (hmem a' ha')
    | header h span =>
      -- the assignments up to the next header belong to the section, and so are passed over
      exact ⟨((List.sublist_append_right _ _).trans hsub).cons_cons _, nofun⟩

/-- **What is known of the parts of a document**: the keys of its root table stand one after the other in the
text, and an integer that stands as a value has 64 bits. -/
theorem rootKeys_of_statements {found : List Statement} (h : statements cs = some (found, rest)) :
    (rootKeys (sections found).1 (sections found).2).Pairwise Key.Precedes ∧
      ∀ a ∈ (sections found).1, a.value.Fits := by
  unfold statements at h
  obtain ⟨mark, text₁, -, h⟩ := bind_eq_some_iff.1 h
  obtain ⟨found', text₂, hmany, h⟩ := bind_eq_some_iff.1 h
  obtain ⟨_, text₃, -, h⟩ := bind_eq_some_iff.1 h
  obtain ⟨_, text₄, -, h⟩ := bind_eq_some_iff.1 h
  cases h
  obtain ⟨hpairs, -, hfits⟩ := placed_upTo _ hmany
  obtain ⟨hsub, hmem⟩ := sections_sublist found
  exact ⟨hpairs.sublist hsub, fun a ha => hfits a (hmem a ha)⟩

end ThreeAddress.Settings
