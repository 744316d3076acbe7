import ThreeAddress.Proofs.Failure
import ThreeAddress.Proofs.NamedLists
import ThreeAddress.Proofs.Sequencing

/-!
# The order of the named lists

The named lists of a replay stand in an order. A list that comes to be goes to the end, and one that is
taken out leaves the others as they are. Merging takes both lists out and puts the result at the end, so a
list that is merged into moves behind all others, however long it has been there.

* `Stamp`, `Register`: for each list that exists the line that created it and the line that gave it its
  place, kept by the commands alone.
* `Ranked`: **the invariant.** The names are those of the register, each once, in the order of their
  places.
* `ranked_step`, `ranked_follow`: every line keeps it, so every execution does.
* `exists_since`: a list is there from the line that created it on, and was not there just before.
* `lists_by_place`: **the order of the lists** after every executed line of any scripts. It is the order of
  creation as long as no line merges into a list that is there.
* `older_list_behind_younger`: a merge that puts a list behind one that was created later.
-/

namespace ThreeAddress.Script

/-- When a list came to be, and when it got the place that it has. -/
structure Stamp where
  created : ℕ
  placed : ℕ
deriving DecidableEq, Repr

/-- The lists that exist, by name, each with its lines. -/
structure Register where
  stamp? : String → Option Stamp

namespace Register

variable {g : Register} {x y : String}

/-- No list exists. -/
def empty : Register := ⟨fun _ => none⟩

/-- The register with a list entered. -/
def enter (g : Register) (name : String) (s : Stamp) : Register :=
  ⟨Function.update g.stamp? name (some s)⟩

/-- The register with a list struck out. -/
def strike (g : Register) (name : String) : Register := ⟨Function.update g.stamp? name none⟩

/-- The register after a command that succeeded on the given line. A list is **created** where its name
turns up and was not there, by an emission or as the list that is merged into. It is gone after it was
patched or merged into another list, and after a reset. -/
def record (g : Register) (line : ℕ) : Command → Register
  | .emit _ _ _ _ (some name) =>
    if (g.stamp? name).isSome then g else g.enter name ⟨line, line⟩
  | .merge into source =>
    (g.strike source).enter into ⟨((g.stamp? into).map Stamp.created).getD line, line⟩
  | .patch name _ => g.strike name
  | .reset => empty
  | _ => g

/-- The register after the next line. A line that fails or has no command changes nothing. -/
def read (g : Register) (r : Replay) (text : List Char) : Register :=
  match (r.step text).result, Command.ofLine? text with
  | .ok _, some command => g.record (r.line + 1) command
  | _, _ => g

/-- The register after lines that are carried out from the state `r` on. -/
def follow (g : Register) (r : Replay) : List (List Char) → Register
  | [] => g
  | text :: texts => (g.read r text).follow (r.step text).state texts

theorem stamp?_enter (g : Register) (x y : String) (s : Stamp) :
    (g.enter x s).stamp? y = if y = x then some s else g.stamp? y := Function.update_apply ..

theorem stamp?_strike (g : Register) (x y : String) :
    (g.strike x).stamp? y = if y = x then none else g.stamp? y := Function.update_apply ..

/-- Striking out a list that is entered anew makes no difference. -/
theorem enter_strike (g : Register) (x : String) (s : Stamp) : (g.strike x).enter x s = g.enter x s :=
  congrArg Register.mk (Function.update_idem ..)

theorem follow_append (texts : List (List Char)) (text : List Char) :
    ∀ (g : Register) (r : Replay),
      g.follow r (texts ++ [text]) = (g.follow r texts).read (r.follow texts) text := by
  induction texts with
  | nil => intro g r; rfl
  | cons t texts ih =>
    intro g r
    exact ih (g.read r t) (r.step t).state

end Register

/-! ## The invariant -/

/-- The names are those of the register, **each once and in the order of their places**, and no list was
placed after line `n`. -/
structure Ranked (names : List String) (g : Register) (n : ℕ) : Prop where
  nodup : names.Nodup
  present : ∀ x, x ∈ names ↔ (g.stamp? x).isSome
  order : names.Pairwise fun x y =>
    ∀ s t, g.stamp? x = some s → g.stamp? y = some t → s.placed < t.placed
  bounds : ∀ x s, g.stamp? x = some s → 1 ≤ s.created ∧ s.created ≤ s.placed ∧ s.placed ≤ n

namespace Ranked

variable {names : List String} {g : Register} {n : ℕ}

theorem nil (n : ℕ) : Ranked [] .empty n :=
  ⟨List.nodup_nil, fun _ => by simp [Register.empty], .nil, fun _ _ h => by cases h⟩

theorem mono (h : Ranked names g n) {n' : ℕ} (hn : n ≤ n') : Ranked names g n' := by
  refine ⟨h.nodup, h.present, h.order, ?_⟩
  intro x s hs
  obtain ⟨h1, h2, h3⟩ := h.bounds x s hs
  exact ⟨h1, h2, h3.trans hn⟩

/-- A list that is taken out leaves the order of the others. -/
theorem erase (h : Ranked names g n) (x : String) : Ranked (names.erase x) (g.strike x) n := by
  have hne : ∀ y ∈ names.erase x, y ≠ x := by
    rintro y hy rfl
    exact h.nodup.not_mem_erase hy
  refine ⟨h.nodup.erase x, ?_, ?_, ?_⟩
  · intro y
    rw [Register.stamp?_strike, h.nodup.mem_erase_iff, h.present]
    by_cases hy : y = x <;> simp [hy]
  · have hsub := h.order.sublist (List.erase_sublist (a := x))
    refine hsub.imp_of_mem ?_
    intro y z hy hz hlt s t hs ht
    rw [Register.stamp?_strike, if_neg (hne y hy)] at hs
    rw [Register.stamp?_strike, if_neg (hne z hz)] at ht
    exact hlt s t hs ht
  · intro y s hs
    rw [Register.stamp?_strike] at hs
    split at hs
    · cases hs
    · exact h.bounds y s hs

/-- A list that is placed by a later line goes to the end. -/
theorem append (h : Ranked names g n) {x : String} (hx : x ∉ names) {s : Stamp} (h1 : 1 ≤ s.created)
    (h2 : s.created ≤ s.placed) (h3 : n < s.placed) :
    Ranked (names ++ [x]) (g.enter x s) s.placed := by
  have hne : ∀ y ∈ names, y ≠ x := by
    rintro y hy rfl
    exact hx hy
  refine ⟨List.concat_eq_append ▸ h.nodup.concat hx, ?_, ?_, ?_⟩
  · intro y
    rw [Register.stamp?_enter, List.mem_append, List.mem_singleton, h.present]
    by_cases hy : y = x <;> simp [hy]
  · refine List.pairwise_append.2 ⟨?_, List.pairwise_singleton _ _, ?_⟩
    · refine h.order.imp_of_mem ?_
      intro y z hy hz hlt u v hu hv
      rw [Register.stamp?_enter, if_neg (hne y hy)] at hu
      rw [Register.stamp?_enter, if_neg (hne z hz)] at hv
      exact hlt u v hu hv
    · -- whatever was there was placed by line `n` at the latest
      intro y hy z hz u v hu hv
      rw [List.mem_singleton.1 hz, Register.stamp?_enter, if_pos rfl] at hv
      rw [Register.stamp?_enter, if_neg (hne y hy)] at hu
      have hold := (h.bounds y u hu).2.2
      obtain rfl := Option.some.inj hv
      omega
  · intro y u hu
    rw [Register.stamp?_enter] at hu
    split at hu
    · obtain rfl := Option.some.inj hu
      exact ⟨h1, h2, le_rfl⟩
    · have hold := h.bounds y u hu
      omega

end Ranked

/-! ## What keeps it -/

variable {r : Replay} {g : Register} {n : ℕ}

namespace Replay

theorem lists_of_error {c : Command} {e : Error} (h : (r.perform c).result = .error e) :
    (r.perform c).state.lists = r.lists := by
  rcases perform_of_error h with ⟨hs, -⟩ | ⟨_, _, _, _, -, -, -, hs⟩
  · rw [hs]
  · rw [hs]; rfl

/-- An emission that is to be noted on a list. -/
theorem ranked_emit (h : Ranked r.lists.names g n) (hn : n < r.line) {mnemonic : String}
    {arg1 arg2 dest : Option String} {name : String}
    (hok : (r.perform (.emit mnemonic arg1 arg2 dest (some name))).result = .ok ()) :
    Ranked (r.perform (.emit mnemonic arg1 arg2 dest (some name))).state.lists.names
      (g.record r.line (.emit mnemonic arg1 arg2 dest (some name))) r.line := by
  have hroom : r.builder.length < r.builder.limit := by
    by_contra hfull
    rw [perform_emit_of_full hfull] at hok
    cases hok
  have hnames : (r.perform (.emit mnemonic arg1 arg2 dest (some name))).state.lists.names =
      if name ∈ r.lists.names then r.lists.names else r.lists.names ++ [name] := by
    rw [perform_emit_of_room hroom]
    exact NamedLists.names_insert ..
  have hpresent := h.present name
  have hregister : g.record r.line (.emit mnemonic arg1 arg2 dest (some name)) =
      if (g.stamp? name).isSome then g else g.enter name ⟨r.line, r.line⟩ := rfl
  rw [hnames, hregister]
  by_cases hmem : name ∈ r.lists.names
  · rw [if_pos hmem, if_pos (hpresent.1 hmem)]
    exact h.mono hn.le
  · rw [if_neg hmem, if_neg (hpresent.not.1 hmem)]
    have hpos : 1 ≤ r.line := by omega
    exact h.append (s := ⟨r.line, r.line⟩) hmem hpos le_rfl hn

/-- A merge takes both lists out and puts the one that is merged into at the end. -/
theorem ranked_merge (h : Ranked r.lists.names g n) (hn : n < r.line) (into source : String) :
    Ranked (r.lists.merge into source).names (g.record r.line (.merge into source)) r.line := by
  set s : Stamp := ⟨((g.stamp? into).map Stamp.created).getD r.line, r.line⟩
  have hcreated : 1 ≤ s.created ∧ s.created ≤ s.placed := by
    cases hg : g.stamp? into with
    | none =>
      have hs : s.created = r.line := by simp only [s, hg, Option.map_none, Option.getD_none]
      have hp : s.placed = r.line := rfl
      omega
    | some t =>
      have hs : s.created = t.created := by simp only [s, hg, Option.map_some, Option.getD_some]
      have hp : s.placed = r.line := rfl
      have hold := h.bounds into t hg
      omega
  have hregister : g.record r.line (.merge into source) =
      ((g.strike source).strike into).enter into s := by
    rw [Register.enter_strike]; rfl
  have hbare := (h.erase source).erase into
  have hnot : into ∉ (r.lists.names.erase source).erase into :=
    (h.nodup.erase source).not_mem_erase
  rw [NamedLists.names_merge h.nodup, hregister]
  exact hbare.append hnot hcreated.1 hcreated.2 hn

/-- **Every command that succeeds keeps the order.** -/
theorem ranked_perform (h : Ranked r.lists.names g n) (hn : n < r.line) {c : Command}
    (hok : (r.perform c).result = .ok ()) :
    Ranked (r.perform c).state.lists.names (g.record r.line c) r.line := by
  cases c with
  | emit mnemonic arg1 arg2 dest list =>
    cases list with
    | none =>
      have hlists : (r.perform (.emit mnemonic arg1 arg2 dest none)).state.lists = r.lists := by
        by_cases hroom : r.builder.length < r.builder.limit
        · rw [perform_emit_of_room hroom]; rfl
        · rw [perform_emit_of_full hroom]; rfl
      rw [hlists]
      exact h.mono hn.le
    | some name => exact ranked_emit h hn hok
  | temporary => exact h.mono hn.le
  | label => exact h.mono hn.le
  | merge into source => exact ranked_merge h hn into source
  | patch name target =>
    cases hget : r.lists.get? name with
    | none => rw [perform_patch_of_none hget] at hok; cases hok
    | some list =>
      rw [perform_patch_of_some hget, Outcome.state_ok, NamedLists.names_erase]
      exact (h.erase name).mono hn.le
  | unroll start stop times => exact h.mono hn.le
  | reset => exact Ranked.nil r.line

/-- **Every line keeps the order**, whatever becomes of it. -/
theorem ranked_step (h : Ranked r.lists.names g r.line) (text : List Char) :
    Ranked (r.step text).state.lists.names (g.read r text) (r.step text).state.line := by
  rw [line_step]
  unfold Register.read
  rcases step_cases r text with ⟨hc, hs⟩ | ⟨_, _, _, hc, hs⟩ | ⟨_, _, c, hc, hs⟩
  · rw [hc, hs]
    exact h.mono (Nat.le_succ _)
  · rw [hc, hs]
    exact h.mono (Nat.le_succ _)
  · rw [hc, hs, Outcome.state_after, Outcome.result_after]
    cases hres : (r.advance.perform c).result with
    | error e =>
      rw [lists_of_error hres]
      exact h.mono (Nat.le_succ _)
    | ok a => exact ranked_perform (r := r.advance) h (Nat.lt_succ_self _) hres

theorem ranked_follow (texts : List (List Char)) :
    ∀ {r : Replay} {g : Register}, Ranked r.lists.names g r.line →
      Ranked (r.follow texts).lists.names (g.follow r texts) (r.follow texts).line := by
  -- on the lines, with replay and register general, as the register reads each line in its own state
  induction texts with
  | nil => intro r g h; exact h
  | cons text texts ih => intro r g h; exact ih (ranked_step h text)

end Replay

/-! ## Since when a list is there -/

namespace Register

variable {x : String} {s : Stamp}

/-- **Everything that a command can do** to a list that is there after it: nothing, or create it, or merge
into it. -/
theorem stamp?_record {line : ℕ} {c : Command} (h : (g.record line c).stamp? x = some s) :
    g.stamp? x = some s ∨ (g.stamp? x = none ∧ s = ⟨line, line⟩) ∨
    ∃ s₀ source, g.stamp? x = some s₀ ∧ s = ⟨s₀.created, line⟩ ∧ c = .merge x source := by
  cases c with
  | emit mnemonic arg1 arg2 dest list =>
    cases list with
    | none => exact Or.inl h
    | some name =>
      have hrecord : g.record line (.emit mnemonic arg1 arg2 dest (some name)) =
          if (g.stamp? name).isSome then g else g.enter name ⟨line, line⟩ := rfl
      rw [hrecord] at h
      split at h
      · exact Or.inl h
      · rename_i hnone
        rw [stamp?_enter] at h
        split at h
        · rename_i hx
          subst hx
          exact Or.inr (Or.inl ⟨Option.not_isSome_iff_eq_none.1 hnone, (Option.some.inj h).symm⟩)
        · exact Or.inl h
  | merge into source =>
    have hrecord : g.record line (.merge into source) = (g.strike source).enter into
        ⟨((g.stamp? into).map Stamp.created).getD line, line⟩ := rfl
    rw [hrecord, stamp?_enter] at h
    split at h
    · rename_i hx
      subst hx
      have hs := (Option.some.inj h).symm
      cases hg : g.stamp? x with
      | none =>
        rw [hg] at hs
        exact Or.inr (Or.inl ⟨rfl, hs⟩)
      | some s₀ =>
        rw [hg] at hs
        exact Or.inr (Or.inr ⟨s₀, source, rfl, hs, rfl⟩)
    · rw [stamp?_strike] at h
      split at h
      · cases h
      · exact Or.inl h
  | patch name target =>
    have hrecord : g.record line (.patch name target) = g.strike name := rfl
    rw [hrecord, stamp?_strike] at h
    split at h
    · cases h
    · exact Or.inl h
  | reset => cases h
  | temporary => exact Or.inl h
  | label => exact Or.inl h
  | unroll start stop times => exact Or.inl h

/-- The same for the next line. -/
theorem stamp?_read {text : List Char} (h : (g.read r text).stamp? x = some s) :
    g.stamp? x = some s ∨ (g.stamp? x = none ∧ s = ⟨r.line + 1, r.line + 1⟩) ∨
    ∃ s₀ source, g.stamp? x = some s₀ ∧ s = ⟨s₀.created, r.line + 1⟩ ∧
      Command.ofLine? text = some (.merge x source) := by
  unfold read at h
  split at h
  · rename_i c _ hc
    rw [hc]
    rcases stamp?_record h with hold | hnew | ⟨s₀, source, h₀, hs, rfl⟩
    · exact Or.inl hold
    · exact Or.inr (Or.inl hnew)
    · exact Or.inr (Or.inr ⟨s₀, source, h₀, hs, rfl⟩)
  · exact Or.inl h

end Register

namespace Replay

variable {b : Builder} {lines : List (List Char)}

/-- **The order holds after any lines**, and the line count is their number. -/
theorem ranked_lines (b : Builder) (lines : List (List Char)) :
    Ranked ((ofBuilder b).follow lines).lists.names (Register.empty.follow (ofBuilder b) lines)
      lines.length := by
  have hline : ((ofBuilder b).follow lines).line = lines.length :=
    (line_follow lines (ofBuilder b)).trans (Nat.zero_add _)
  have h := ranked_follow (r := ofBuilder b) lines (Ranked.nil 0)
  rwa [hline] at h

theorem follow_take_succ {k : ℕ} (hk : k < lines.length) (r : Replay) (g : Register) :
    r.follow (lines.take (k + 1)) = ((r.follow (lines.take k)).step lines[k]).state ∧
      g.follow r (lines.take (k + 1)) =
        (g.follow r (lines.take k)).read (r.follow (lines.take k)) lines[k] := by
  rw [List.take_add_one, List.getElem?_eq_getElem hk, Option.toList_some]
  exact ⟨follow_append r _ _, Register.follow_append _ _ g r⟩

/-- **A list is there from the line that created it on**, and was not there just before that line. -/
theorem exists_since (b : Builder) (lines : List (List Char)) (m : ℕ) : m ≤ lines.length → ∀ x s,
    (Register.empty.follow (ofBuilder b) (lines.take m)).stamp? x = some s →
      s.created ≤ m ∧ x ∉ ((ofBuilder b).follow (lines.take (s.created - 1))).lists.names ∧
      ∀ k, s.created ≤ k → k ≤ m → x ∈ ((ofBuilder b).follow (lines.take k)).lists.names := by
  induction m with
  | zero => intro _ x s hs; cases hs
  | succ m ih =>
    intro hm x s hs
    have hcount : ((ofBuilder b).follow (lines.take m)).line = m := by
      have hlength : (lines.take m).length = m := List.length_take_of_le (by omega)
      exact (line_follow _ _).trans (by rw [hlength]; exact Nat.zero_add m)
    -- the list is there now, so what is left to see is since when
    have hnow : x ∈ ((ofBuilder b).follow (lines.take (m + 1))).lists.names :=
      ((ranked_lines b _).present x).2 (Option.isSome_of_mem hs)
    have hkept : ∀ s₀, (Register.empty.follow (ofBuilder b) (lines.take m)).stamp? x = some s₀ →
        s.created = s₀.created → s.created ≤ m + 1 ∧
          x ∉ ((ofBuilder b).follow (lines.take (s.created - 1))).lists.names ∧
          ∀ k, s.created ≤ k → k ≤ m + 1 → x ∈ ((ofBuilder b).follow (lines.take k)).lists.names := by
      intro s₀ hs₀ heq
      obtain ⟨h1, h2, h3⟩ := ih (by omega) x s₀ hs₀
      rw [heq]
      refine ⟨by omega, h2, ?_⟩
      intro k hk hkm
      rcases Nat.lt_or_ge k (m + 1) with hlt | hge
      · exact h3 k hk (by omega)
      · obtain rfl : k = m + 1 := by omega
        exact hnow
    rw [(follow_take_succ hm (ofBuilder b) .empty).2] at hs
    rcases Register.stamp?_read hs with hold | ⟨hnone, hnew⟩ | ⟨s₀, source, hs₀, hmerged, -⟩
    · exact hkept s hold rfl
    · have hcreated : s.created = m + 1 := by rw [hnew, hcount]
      have habsent : x ∉ ((ofBuilder b).follow (lines.take m)).lists.names := by
        rw [(ranked_lines b _).present x, hnone]; simp
      refine ⟨by omega, ?_, ?_⟩
      · rw [hcreated, Nat.add_sub_cancel]; exact habsent
      · intro k hk hkm
        obtain rfl : k = m + 1 := by omega
        exact hnow
    · exact hkept s₀ hs₀ (by rw [hmerged])

/-- As long as no line merges into a list that is there, every list has the place that it was created
with. -/
theorem placed_eq_created (hmerge : ∀ k text into source, lines[k]? = some text →
      Command.ofLine? text = some (.merge into source) →
      into ∉ ((ofBuilder b).follow (lines.take k)).lists.names) (m : ℕ) :
    m ≤ lines.length → ∀ x s, (Register.empty.follow (ofBuilder b) (lines.take m)).stamp? x = some s →
      s.placed = s.created := by
  induction m with
  | zero => intro _ x s hs; cases hs
  | succ m ih =>
    intro hm x s hs
    rw [(follow_take_succ hm (ofBuilder b) .empty).2] at hs
    rcases Register.stamp?_read hs with hold | ⟨-, hnew⟩ | ⟨s₀, source, hs₀, -, hc⟩
    · exact ih (by omega) x s hold
    · rw [hnew]
    · have hthere := ((ranked_lines b _).present x).2 (Option.isSome_of_mem hs₀)
      have hnot := hmerge m lines[m] x source (List.getElem?_eq_getElem hm) hc
      exact absurd hthere hnot

end Replay

open Replay

/-- **The order of the lists.** Let any scripts be run, failed ones included, and look at the lists after
`n` executed lines. Their names are those that the register has, each once. The register has for each of
them the line that created it: the list is there from that line on and was not there before it. The names
are in the order of the lines that gave them their places, where a merge gives a new place to the list that
is merged into. So they are in the order of creation if no line merged into a list that was there. -/
theorem lists_by_place (b : Builder) (sources : List String) (n : ℕ) :
    let r₀ := ofBuilder b
    let lines := (r₀.executedIn sources).take n
    let r := r₀.follow lines
    let g := Register.empty.follow r₀ lines
    r₀.follow (r₀.executedIn sources) = r₀.runs sources ∧
    r.lists.names.Nodup ∧ (∀ x, x ∈ r.lists.names ↔ (g.stamp? x).isSome) ∧
    (∀ x s, g.stamp? x = some s →
      1 ≤ s.created ∧ s.created ≤ s.placed ∧ s.placed ≤ lines.length ∧
      x ∉ (r₀.follow (lines.take (s.created - 1))).lists.names ∧
      ∀ k, s.created ≤ k → k ≤ lines.length → x ∈ (r₀.follow (lines.take k)).lists.names) ∧
    (r.lists.names.Pairwise fun x y =>
      ∀ s t, g.stamp? x = some s → g.stamp? y = some t → s.placed < t.placed) ∧
    ((∀ k text into source, lines[k]? = some text →
        Command.ofLine? text = some (.merge into source) →
        into ∉ (r₀.follow (lines.take k)).lists.names) →
      r.lists.names.Pairwise fun x y =>
        ∀ s t, g.stamp? x = some s → g.stamp? y = some t → s.created < t.created) := by
  intro r₀ lines r g
  have hranked : Ranked r.lists.names g lines.length := ranked_lines b lines
  have hall : lines.take lines.length = lines := List.take_length
  refine ⟨(runs_eq_follow sources r₀).symm, hranked.nodup, hranked.present, ?_, hranked.order, ?_⟩
  · intro x s hs
    obtain ⟨h1, h2, h3⟩ := hranked.bounds x s hs
    have hsince := exists_since b lines lines.length le_rfl x s
    rw [hall] at hsince
    exact ⟨h1, h2, h3, (hsince hs).2⟩
  · intro hmerge
    have hplace := placed_eq_created hmerge lines.length le_rfl
    rw [hall] at hplace
    refine hranked.order.imp ?_
    intro x y hlt s t hs ht
    rw [← hplace x s hs, ← hplace y t ht]
    exact hlt s t hs ht

/-- The merge creates its list, and the list that it uses up is created again. -/
theorem lists_by_place_new_list :
    let lines := ((ofBuilder (.empty 9)).executedIn ["emit GOTO -> a\nmerge b a\nemit GOTO -> a"]).take 3
    let names := ((ofBuilder (.empty 9)).follow lines).lists.names
    let g := Register.empty.follow (ofBuilder (.empty 9)) lines
    names = ["b", "a"] ∧ g.stamp? "b" = some ⟨2, 2⟩ ∧ g.stamp? "a" = some ⟨3, 3⟩ ∧
    names.Pairwise fun x y =>
      ∀ s t, g.stamp? x = some s → g.stamp? y = some t → s.created < t.created := by
  dsimp only
  obtain ⟨-, -, -, -, -, hcreated⟩ :=
    lists_by_place (.empty 9) ["emit GOTO -> a\nmerge b a\nemit GOTO -> a"] 3
  refine ⟨by decide +kernel, by decide +kernel, by decide +kernel, hcreated ?_⟩
  have hlines : ((ofBuilder (.empty 9)).executedIn ["emit GOTO -> a\nmerge b a\nemit GOTO -> a"]).take 3 =
      ["emit GOTO -> a".toList, "merge b a".toList, "emit GOTO -> a".toList] := by decide +kernel
  have hemit : Command.ofLine? "emit GOTO -> a".toList =
      some (.emit "GOTO" none none none (some "a")) := by decide +kernel
  have hmerge : Command.ofLine? "merge b a".toList = some (.merge "b" "a") := by decide +kernel
  rw [hlines]
  intro k text into source hk hc
  match k with
  | 0 => obtain rfl := Option.some.inj hk; rw [hemit] at hc; cases hc
  | 1 =>
    obtain rfl := Option.some.inj hk
    obtain ⟨rfl, -⟩ := Command.merge.inj (Option.some.inj (hmerge.symm.trans hc))
    decide +kernel
  | 2 => obtain rfl := Option.some.inj hk; rw [hemit] at hc; cases hc
  | k + 3 => cases hk

/-- A script that succeeds and leaves a list behind one that was created after it. -/
theorem older_list_behind_younger :
    let r₀ := ofBuilder (.empty 5000)
    let script := "emit GOTO -> a\nemit GOTO -> b\nemit GOTO -> c\nmerge a c"
    let g := Register.empty.follow r₀ (r₀.executedIn [script])
    (r₀.run script).result = .ok () ∧ (r₀.run script).state.lists.names = ["b", "a"] ∧
    ¬ (r₀.run script).state.lists.names.Pairwise fun x y =>
      ∀ s t, g.stamp? x = some s → g.stamp? y = some t → s.created < t.created := by
  intro r₀ script g
  have hnames : (r₀.run script).state.lists.names = ["b", "a"] := by decide +kernel
  refine ⟨by decide +kernel, hnames, ?_⟩
  rw [hnames]
  intro h
  have hb : g.stamp? "b" = some ⟨2, 2⟩ := by decide +kernel
  have ha : g.stamp? "a" = some ⟨1, 4⟩ := by decide +kernel
  have hlt := List.rel_of_pairwise_cons h List.mem_cons_self _ _ hb ha
  exact absurd hlt (by decide)

end ThreeAddress.Script
