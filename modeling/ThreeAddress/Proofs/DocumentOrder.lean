import ThreeAddress.Proofs.RootTable
import ThreeAddress.Proofs.SettingTexts
import ThreeAddress.Settings.Library

/-!
# Documents in the order of their text

Which texts are documents is fixed by a format, and a library reads them. The program relies on both and
defines neither, so what it relies on is stated here, to be assumed of any format and any library.

* `Format`: the entries of the root table of a document, **in the order in which the text mentions their keys**.
* `Library.Visits`: a library **visits the entries in this order and stops at the first that is refused**.
* `Document.format`: what the grammar of this project takes to be a document.
* `visits_library`: its library visits the entries in order, wherever no table is mentioned first and defined by
  a header `[name]` of its own afterwards.
-/

namespace ThreeAddress.Settings

variable {text : List Char} {entries : Entries} {keys : List Key}

/-- What a **format** for documents says about a text: whether it is a document, and the entries of its root
table, each at the place where its key is mentioned first. No key is repeated, integers have 64 bits, and a line
with a bare key, an equals sign and decimal digits gives the number to the key. -/
structure Format where
  rootTable? : List Char → Option Entries
  nodup : ∀ {text entries}, rootTable? text = some entries → entries.names.Nodup
  ordered : ∀ {text entries}, rootTable? text = some entries → entries.keys.Pairwise Key.Precedes
  fits : ∀ {text entries}, rootTable? text = some entries → ∀ e ∈ entries, e.2.2.Fits
  setting : ∀ (l : Layout) {name : List Char} {n : ℕ}, IsBare name → 1 ≤ n → n ≤ 2 ^ 63 - 1 →
    ∃ (key : Key) (span : Span), key.name = String.ofList name ∧
      rootTable? (l.text name n) = some [(key, span, .integer n)]

/-- **What is relied on of a library** when it reads a text. A visitor that refuses no entry sees all of them in
order; at the first one that is refused the visit ends with the reason; and what is no document is not
visited. -/
structure Library.Visits (library : Library) (format : Format) (text : List Char) : Prop where
  malformed : format.rootTable? text = none →
    ∀ {σ ε : Type} (visitor : Visitor σ ε) (start : σ), library.visit visitor start text = none
  inOrder : ∀ {entries : Entries}, format.rootTable? text = some entries →
    ∀ {σ ε : Type} {visitor : Visitor σ ε} {start result : σ}, entries.foldlM visitor start = .ok result →
      library.visit visitor start text = some (.ok result)
  stops : ∀ {before after : Entries} {e : Key × Span × Node},
    format.rootTable? text = some (before ++ e :: after) →
    ∀ {σ ε : Type} {visitor : Visitor σ ε} {start reached : σ} {fault : ε},
      before.foldlM visitor start = .ok reached → visitor reached e = .error fault →
        library.visit visitor start text = some (.error fault)

/-! ## Entries in the order of keys -/

/-- The entries in the order in which keys mention them first. -/
def Entries.inOrder (entries : Entries) (keys : List Key) : Entries :=
  (firsts keys).filterMap fun key => (entries.find? key.name).map fun e => (key, e.2)

theorem keys_inOrder (h : ∀ key ∈ keys, key.name ∈ entries.names) : (entries.inOrder keys).keys = firsts keys := by
  have hfound : ∀ key ∈ firsts keys,
      ((entries.find? key.name).map fun e => (key, e.2)).map (fun e => e.1) = some key := by
    intro key hkey
    cases hfind : entries.find? key.name with
    | none => exact absurd (h key ((firsts_sublist keys).subset hkey)) (not_mem_names_of_find? hfind)
    | some e => rfl
  unfold Entries.inOrder Entries.keys
  rw [List.map_filterMap, List.filterMap_congr hfound, List.filterMap_some]

theorem mem_inOrder {e : Key × Span × Node} (h : e ∈ entries.inOrder keys) : ∃ e' ∈ entries, e.2 = e'.2 := by
  obtain ⟨key, -, hmap⟩ := List.mem_filterMap.1 h
  obtain ⟨e', hfind, rfl⟩ := Option.map_eq_some_iff.1 hmap
  exact ⟨e', List.mem_of_find?_eq_some hfind, rfl⟩

theorem find?_of_mem {e : Key × Span × Node} (hnodup : entries.names.Nodup) (h : e ∈ entries) :
    entries.find? e.1.name = some e := by
  unfold Entries.names Entries.keys at hnodup
  rw [List.map_map] at hnodup
  cases hfind : entries.find? e.1.name with
  | none =>
    exact absurd (List.mem_map_of_mem (List.mem_map_of_mem h)) (not_mem_names_of_find? hfind)
  | some e' =>
    have hname : e'.1.name = e.1.name := by simpa using List.find?_some hfind
    rw [List.inj_on_of_nodup_map hnodup (List.mem_of_find?_eq_some hfind) h hname]

theorem inOrder_of_keys (hnodup : entries.names.Nodup) (h : entries.keys = firsts keys) :
    entries.inOrder keys = entries := by
  have hfound : ∀ e ∈ entries, (entries.find? e.1.name).map (fun e' => (e.1, e'.2)) = some e :=
    fun e he => by rw [find?_of_mem hnodup he]; rfl
  unfold Entries.inOrder
  rw [← h, Entries.keys, List.filterMap_map]
  exact (List.filterMap_congr hfound).trans List.filterMap_some

/-! ## The format of this project -/

/-- The root table of a text, in the order of the text. -/
def Document.rootTable? (text : List Char) : Option Entries := do
  let (found, _) ← statements text
  let (top, below) := sections found
  return (← document? top below).inOrder (rootKeys top below)

section Parts

variable {found : List Statement} {rest : List Char}

theorem ofText?_of_statements (h : statements text = some (found, rest)) :
    Document.ofText? text = document? (sections found).1 (sections found).2 := by
  simp only [Document.ofText?, h, Option.bind_eq_bind, Option.bind_some]

theorem rootTable?_of_statements (h : statements text = some (found, rest)) :
    Document.rootTable? text = (document? (sections found).1 (sections found).2).map fun entries =>
      entries.inOrder (rootKeys (sections found).1 (sections found).2) := by
  simp only [Document.rootTable?, h, Option.bind_eq_bind, Option.bind_some]
  cases document? (sections found).1 (sections found).2 with
  | none => rfl
  | some entries => rfl

end Parts

/-- Where a root table comes from. -/
theorem rootTable?_eq_some (h : Document.rootTable? text = some entries) :
    ∃ found rest table, statements text = some (found, rest) ∧
      document? (sections found).1 (sections found).2 = some table ∧ table.Tidy ∧
      entries = table.inOrder (rootKeys (sections found).1 (sections found).2) ∧
      entries.keys = firsts (rootKeys (sections found).1 (sections found).2) := by
  cases hread : statements text with
  | none =>
    rw [Document.rootTable?, hread] at h
    cases h
  | some p =>
    obtain ⟨found, rest⟩ := p
    rw [rootTable?_of_statements hread] at h
    obtain ⟨table, htable, rfl⟩ := Option.map_eq_some_iff.1 h
    obtain ⟨htidy, hnames⟩ := tidy_document? (rootKeys_of_statements hread).2 htable
    exact ⟨found, rest, table, rfl, htable, htidy, rfl,
      keys_inOrder fun key hkey => (hnames key.name).2 (List.mem_map_of_mem hkey)⟩

theorem rootTable?_layout (l : Layout) {name : List Char} {n : ℕ} (h : IsBare name) (hpos : 1 ≤ n)
    (hle : n ≤ 2 ^ 63 - 1) : ∃ (key : Key) (span : Span), key.name = String.ofList name ∧
      Document.rootTable? (l.text name n) = some [(key, span, .integer n)] := by
  obtain ⟨key, span, found, hname, hread, hsections⟩ := statements_layout l h hpos hle
  refine ⟨key, span, hname, ?_⟩
  have hdocument : document? [⟨⟨[], key⟩, span, .integer n⟩] [] = some [(key, span, .integer n)] := rfl
  have hnodup : (Entries.names [(key, span, .integer n)]).Nodup := List.nodup_singleton key.name
  rw [rootTable?_of_statements hread, hsections, hdocument, Option.map_some, inOrder_of_keys hnodup rfl]

/-- The **format** that the grammar of this project describes. -/
def Document.format : Format where
  rootTable? := Document.rootTable?
  nodup h := by
    obtain ⟨found, rest, table, -, -, -, -, hkeys⟩ := rootTable?_eq_some h
    unfold Entries.names
    rw [hkeys]
    exact nodup_firsts _
  ordered h := by
    obtain ⟨found, rest, table, hread, -, -, -, hkeys⟩ := rootTable?_eq_some h
    rw [hkeys]
    exact (rootKeys_of_statements hread).1.sublist (firsts_sublist _)
  fits h := by
    obtain ⟨found, rest, table, -, -, htidy, rfl, -⟩ := rootTable?_eq_some h
    intro e he
    obtain ⟨e', he', heq⟩ := mem_inOrder he
    rw [heq]
    exact htidy.fits e' he'
  setting l _ _ := rootTable?_layout l

/-! ## The library of this project -/

theorem visit_library {σ ε : Type} (visitor : Visitor σ ε) (start : σ) (text : List Char) :
    Document.library.visit visitor start text =
      (Document.ofText? text).map fun entries => entries.foldlM visitor start := rfl

/-- The library visits the entries as it has them, so in order if that is how it has them. -/
theorem visits_of_ofText? (h : Document.ofText? text = Document.rootTable? text) :
    Document.library.Visits Document.format text := by
  have hformat : Document.format.rootTable? text = Document.ofText? text := h.symm
  constructor
  · intro hnone σ ε visitor start
    rw [visit_library, ← hformat, hnone]; rfl
  · intro entries hsome σ ε visitor start result hresult
    rw [visit_library, ← hformat, hsome, Option.map_some, hresult]
  · intro before after e hsome σ ε visitor start reached fault hreached hfault
    rw [visit_library, ← hformat, hsome, Option.map_some, List.foldlM_append, hreached]
    show some (List.foldlM visitor reached (e :: after)) = _
    rw [List.foldlM_cons, hfault]; rfl

/-- **Entries are visited in document order** where none is moved by a header `[name]`. -/
theorem visits_library {found : List Statement} {rest : List Char} (h : statements text = some (found, rest))
    (hunmoved : Unmoved (sections found).1 (sections found).2) :
    Document.library.Visits Document.format text := by
  apply visits_of_ofText?
  rw [ofText?_of_statements h, rootTable?_of_statements h]
  cases hdocument : document? (sections found).1 (sections found).2 with
  | none => rfl
  | some entries =>
    have hfits := (rootKeys_of_statements h).2
    rw [Option.map_some, inOrder_of_keys (tidy_document? hfits hdocument).1.nodup
      (keys_document? hfits hunmoved hdocument)]

/-- A table that is mentioned first and defined later is visited where it is defined. -/
example : (Document.ofText? "[a.b]\n[c]\n[a]".toList).map Entries.names = some ["c", "a"] ∧
    (Document.rootTable? "[a.b]\n[c]\n[a]".toList).map Entries.names = some ["a", "c"] := by
  decide +kernel

/-- So they are in a document without headers. -/
theorem visits_of_no_sections (h : (statements text).map (fun p => (sections p.1).2.length) = some 0) :
    Document.library.Visits Document.format text := by
  obtain ⟨⟨found, rest⟩, hread, hlength⟩ := Option.map_eq_some_iff.1 h
  have hnil : (sections found).2 = [] := List.length_eq_zero_iff.1 hlength
  refine visits_library hread ?_
  rw [hnil]
  exact ⟨nofun, .nil⟩

end ThreeAddress.Settings
