import ThreeAddress.Proofs.Arguments
import ThreeAddress.Proofs.Files

/-!
# All or nothing

A call of the program either hands over a whole listing or leaves no trace but its messages.

* `Ready`: what the arguments and the files have to be for a call to come to a listing. It is stated of
  the arguments as they are given; `ready_iff` says what it means for the options read from them.
* `Options.run_withSettings`, `Options.run_deliver`: what the first and the last part of a call can do.
* `call_cases`: **every call** fails and changes nothing, or gives help, or delivers.
* `all_or_nothing`: what this means for the exit code, the standard output and the files.
-/

namespace ThreeAddress

theorem Settings.validate_eq_ok {s s' : Settings} : s.validate = .ok s' ↔ s' = s ∧ 0 < s.limit := by
  unfold Settings.validate
  split
  · rename_i h
    simp [h]
  · rename_i h
    have hpos : 0 < s.limit := Nat.pos_of_ne_zero h
    simp [hpos, eq_comm]

theorem Settings.limit_pos_of_settings {library : Settings.Library} {text : String} {s : Settings}
    (h : library.settings text = .ok s) : 0 < s.limit := by
  unfold Settings.Library.settings at h
  split at h
  · cases h
  · cases h
  · obtain ⟨rfl, hpos⟩ := Settings.validate_eq_ok.1 h
    exact hpos

namespace CommandLine

variable {σ : Type} {fs : FileSystem σ} {library : Settings.Library} {d : σ} {o : Options}
  {arguments : List String} {limit : ℕ} {source : String}

/-- The replay of a script in a fresh session. -/
def session (limit : ℕ) (source : String) : Outcome Builder Unit :=
  Script.replay (Builder.new limit).value source

/-- The limit that a file of settings gives, which has to be valid; without a file it is the usual one. -/
def FileSystem.Configures (fs : FileSystem σ) (library : Settings.Library) (d : σ) (limit : ℕ) :
    Option String → Prop
  | none => limit = 5000
  | some path => ∃ text s, fs.read d path = .ok text ∧ library.settings text = .ok s ∧ s.limit = limit

/-- **What a call needs** to come to a listing: valid settings even if another limit wins over them, a limit
that leaves room, and a script that can be read and replayed within the limit. -/
structure Ready (fs : FileSystem σ) (library : Settings.Library) (arguments : List String) (d : σ) (limit : ℕ)
    (source : String) : Prop where
  settings : ∃ configured, fs.Configures library d configured (lastOf .settings arguments) ∧
    ((lastOf .limit arguments = none ∧ limit = configured) ∨
      ∃ text, lastOf .limit arguments = some text ∧ Text.index? text.toList = some limit)
  positive : 0 < limit
  script : ∃ path, lastOf .input arguments = some path ∧ fs.read d path = .ok source
  replayed : (session limit source).result = .ok ()

/-- A listing is **handed over**: it is all that the last file named for it holds, and no other file has
changed, or it is the standard output and no file has changed. -/
def Delivered (fs : FileSystem σ) (arguments : List String) (listing : String) (d : σ) (report : Report)
    (d' : σ) : Prop :=
  match lastOf .output arguments with
  | none => report.stdout = listing ∧ d' = d
  | some path => report.stdout = "" ∧ fs.read d' path = .ok listing ∧
    ∃ name, fs.find d' path = .file name (some listing) ∧
      ∀ other n t, n ≠ name → (fs.find d' other = .file n t ↔ fs.find d other = .file n t)

namespace Options

/-! ## The settings of a call -/

/-- The settings before the command line has its say. -/
def configured (o : Options) (fs : FileSystem σ) (library : Settings.Library) (d : σ) :
    Except Settings.Fault Settings :=
  match o.settings with
  | none => .ok {}
  | some path =>
    match fs.read d path with
    | .error reason => .error (.unreadable path reason)
    | .ok text => library.settings text

/-- The settings of a call. -/
def settled (o : Options) (fs : FileSystem σ) (library : Settings.Library) (d : σ) :
    Except Settings.Fault Settings :=
  (o.configured fs library d).bind o.override

/-- Getting the settings reads a file at most, and a call without settings fails. -/
theorem run_withSettings (o : Options) (next : Settings → Dialogue) (d : σ) :
    (o.withSettings library next).run fs.toAnswers d =
      match o.settled fs library d with
      | .error fault => (Dialogue.failWith (.settings fault)).run fs.toAnswers d
      | .ok s => (next s).run fs.toAnswers d := by
  unfold withSettings settled configured
  cases o.settings with
  | none => simp only; split <;> simp_all
  | some path =>
    simp only [Dialogue.run]
    cases fs.read d path with
    | error reason => simp only; split <;> simp_all
    | ok text => simp only; split <;> simp_all

theorem configured_eq_ok : o.configured fs library d = .ok ⟨limit⟩ ↔ fs.Configures library d limit o.settings := by
  unfold configured FileSystem.Configures
  cases o.settings with
  | none =>
    constructor
    · intro h; exact (congrArg Settings.limit (Except.ok.inj h)).symm
    · intro h; rw [h]
  | some path =>
    cases hread : fs.read d path with
    | error reason => simp [hread]
    | ok text =>
      simp only [hread]
      constructor
      · intro h; exact ⟨text, ⟨limit⟩, rfl, h, rfl⟩
      · rintro ⟨_, s, ⟨⟩, hs, rfl⟩; exact hs

theorem limit_pos_of_configured {s : Settings} (h : o.configured fs library d = .ok s) : 0 < s.limit := by
  unfold configured at h
  split at h
  · obtain rfl := Except.ok.inj h
    exact Nat.succ_pos 4999
  · split at h
    · cases h
    · exact Settings.limit_pos_of_settings h

theorem override_eq_ok {s : Settings} (hs : 0 < s.limit) : o.override s = .ok ⟨limit⟩ ↔
    0 < limit ∧ ((o.limit = none ∧ limit = s.limit) ∨ o.limit = some limit) := by
  unfold override
  cases o.limit with
  | none =>
    constructor
    · intro h
      obtain rfl := Except.ok.inj h
      exact ⟨hs, Or.inl ⟨rfl, rfl⟩⟩
    · rintro ⟨-, ⟨-, rfl⟩ | h⟩
      · rfl
      · cases h
  | some n =>
    rw [Settings.validate_eq_ok]
    constructor
    · rintro ⟨heq, hpos⟩
      obtain rfl : limit = n := congrArg Settings.limit heq
      exact ⟨hpos, Or.inr rfl⟩
    · rintro ⟨hpos, ⟨h, -⟩ | h⟩
      · cases h
      · obtain rfl := Option.some.inj h
        exact ⟨rfl, hpos⟩

/-- **The limit in force**: the one on the command line, or else the configured one. -/
theorem settled_eq_ok : o.settled fs library d = .ok ⟨limit⟩ ↔
    0 < limit ∧ ∃ configured, fs.Configures library d configured o.settings ∧
      ((o.limit = none ∧ limit = configured) ∨ o.limit = some limit) := by
  constructor
  · intro h
    unfold settled at h
    cases hconf : o.configured fs library d with
    | error fault => rw [hconf] at h; cases h
    | ok s =>
      rw [hconf] at h
      obtain ⟨hpos, hlimit⟩ := (override_eq_ok (limit_pos_of_configured hconf)).1 h
      exact ⟨hpos, s.limit, configured_eq_ok.1 hconf, hlimit⟩
  · rintro ⟨hpos, configured, hc, hlimit⟩
    have hconf := configured_eq_ok.2 hc
    rw [settled, hconf]
    exact (override_eq_ok (limit_pos_of_configured hconf)).2 ⟨hpos, hlimit⟩

/-! ## From the call to the listing -/

/-- What the options and the files have to be for a call to come to a listing. -/
structure Prepared (o : Options) (fs : FileSystem σ) (library : Settings.Library) (d : σ) (limit : ℕ)
    (source : String) : Prop where
  settled : o.settled fs library d = .ok ⟨limit⟩
  read : fs.read d o.input = .ok source
  replayed : (session limit source).result = .ok ()

theorem Prepared.unique {limit' : ℕ} {source' : String} (h : o.Prepared fs library d limit source)
    (h' : o.Prepared fs library d limit' source') : limit = limit' ∧ source = source' := by
  have hlimit := h.settled.symm.trans h'.settled
  have hsource := h.read.symm.trans h'.read
  exact ⟨congrArg Settings.limit (Except.ok.inj hlimit), Except.ok.inj hsource⟩

/-- Handing over a listing leaves everything alone, or writes it to the file asked for. -/
theorem run_deliver (o : Options) (b : Builder) (d : σ) :
    (o.output = none ∧ (o.deliver b).run fs.toAnswers d = (⟨0, b.listing, o.remark b⟩, d)) ∨
    ∃ path, o.output = some path ∧
      ((∃ reason, fs.write d path b.listing = .error reason ∧
          ∃ message, (o.deliver b).run fs.toAnswers d = (⟨1, "", message⟩, d)) ∨
        ∃ d', fs.write d path b.listing = .ok d' ∧
          (o.deliver b).run fs.toAnswers d = (⟨0, "", o.remark b⟩, d')) := by
  unfold deliver
  cases o.output with
  | none => exact Or.inl ⟨rfl, rfl⟩
  | some path =>
    refine Or.inr ⟨path, rfl, ?_⟩
    cases hwrite : fs.write d path b.listing with
    | error reason =>
      left
      simp [Dialogue.run, hwrite]
    | ok d' =>
      refine Or.inr ⟨d', rfl, ?_⟩
      simp only [Dialogue.run, hwrite]

end Options

open Options

/-- Replaying the script is all that is left once the settings are there and the script is read. -/
theorem run_generate (o : Options) (s : Settings) (source : String) (d : σ) :
    ((session s.limit source).result = .ok () ∧ (o.generate s source).run fs.toAnswers d =
      (o.deliver (session s.limit source).state).run fs.toAnswers d) ∨
    ((session s.limit source).result ≠ .ok () ∧
      ∃ message, (o.generate s source).run fs.toAnswers d = (⟨1, "", message⟩, d)) := by
  have hreplay : Script.replay (Builder.new s.limit).value source = session s.limit source := rfl
  simp only [generate, hreplay]
  cases (session s.limit source).result with
  | ok _ => exact Or.inl ⟨rfl, rfl⟩
  | error e => exact Or.inr ⟨by simp, _, rfl⟩

/-- **A call with acceptable arguments** fails and changes nothing, or hands over the listing. -/
theorem run_program (name : String) (h : ofArguments arguments = .ok o) (d : σ) :
    ((¬ ∃ limit source, o.Prepared fs library d limit source) ∧
      ∃ message, (programWith library name arguments).run fs.toAnswers d = (⟨1, "", message⟩, d)) ∨
    ∃ limit source, o.Prepared fs library d limit source ∧
      (programWith library name arguments).run fs.toAnswers d = (o.deliver (session limit source).state).run fs.toAnswers d := by
  simp only [programWith, h, run_withSettings]
  cases hset : o.settled fs library d with
  | error fault =>
    refine Or.inl ⟨?_, _, rfl⟩
    rintro ⟨limit, source, hp⟩
    rw [hp.settled] at hset; cases hset
  | ok s =>
    simp only [Dialogue.run]
    cases hread : fs.read d o.input with
    | error reason =>
      refine Or.inl ⟨?_, _, rfl⟩
      rintro ⟨limit, source, hp⟩
      rw [hp.read] at hread; cases hread
    | ok source =>
      rcases run_generate o s source d with ⟨hok, hrun⟩ | ⟨hfail, hrun⟩
      · exact Or.inr ⟨s.limit, source, ⟨hset, hread, hok⟩, hrun⟩
      · refine Or.inl ⟨?_, hrun⟩
        rintro ⟨limit, source', hp⟩
        rw [hp.settled] at hset
        rw [hp.read] at hread
        obtain rfl := Except.ok.inj hset
        obtain rfl := Except.ok.inj hread
        exact hfail hp.replayed

/-- The options read from the arguments are prepared if the arguments are. -/
theorem ready_iff (h : ofArguments arguments = .ok o) :
    Ready fs library arguments d limit source ↔ o.Prepared fs library d limit source := by
  obtain ⟨hr, hne⟩ := reflects_ofArguments h
  have hsettings : o.settings = lastOf .settings arguments := hr.settings
  have hinput : lastOf .input arguments = some o.input := by
    have hi : o.input = (lastOf .input arguments).getD "" := hr.input
    cases hl : lastOf .input arguments with
    | none => rw [hl] at hi; exact absurd hi hne
    | some path => rw [hl] at hi; rw [hi]; rfl
  have hl : o.limit.map some = (lastOf .limit arguments).map fun text => Text.index? text.toList := hr.limit
  have hnone : o.limit = none ↔ lastOf .limit arguments = none := by
    rw [← Option.map_eq_none_iff (f := some), hl, Option.map_eq_none_iff]
  have hsome : o.limit = some limit ↔
      ∃ text, lastOf .limit arguments = some text ∧ Text.index? text.toList = some limit := by
    rw [← Option.map_eq_some_iff, ← hl]
    simp
  constructor
  · rintro ⟨⟨configured, hc, hlimit⟩, hpos, ⟨path, hpath, hread⟩, hok⟩
    rw [hinput] at hpath
    obtain rfl := Option.some.inj hpath
    refine ⟨settled_eq_ok.2 ⟨hpos, configured, by rw [hsettings]; exact hc, ?_⟩, hread, hok⟩
    rw [hnone, hsome]; exact hlimit
  · rintro ⟨hset, hread, hok⟩
    obtain ⟨hpos, configured, hc, hlimit⟩ := settled_eq_ok.1 hset
    rw [hnone, hsome] at hlimit
    rw [hsettings] at hc
    exact ⟨⟨configured, hc, hlimit⟩, hpos, ⟨o.input, hinput, hread⟩, hok⟩

/-- How a call without help or listing ends: it tells so, and it leaves the files alone. -/
structure Failed (name : String) (d : σ) (report : Report) (d' : σ) : Prop where
  exit : report.exit ≠ 0
  stdout : report.stdout = "" ∨ report.stdout = usage name
  files : d' = d

theorem failed_of_stop {name : String} {stop : Stop} (h : stop ≠ .help) :
    Failed name d (stop.report name) d := by
  cases stop with
  | help => exact absurd rfl h
  | noArguments => exact ⟨Nat.one_ne_zero, Or.inr rfl, rfl⟩
  | unknownOption text => exact ⟨Nat.one_ne_zero, Or.inr rfl, rfl⟩
  | noInput => exact ⟨Nat.one_ne_zero, Or.inr rfl, rfl⟩
  | _ => exact ⟨Nat.one_ne_zero, Or.inl rfl, rfl⟩

/-- Handing over the listing fails or delivers it. -/
theorem failed_or_delivered (name : String) (hout : o.output = lastOf .output arguments) (b : Builder)
    (d : σ) :
    let call := (o.deliver b).run fs.toAnswers d
    ((∃ path, lastOf .output arguments = some path ∧ ∃ reason, fs.write d path b.listing = .error reason) ∧
      Failed name d call.1 call.2) ∨
    (call.1.exit = 0 ∧ Delivered fs arguments b.listing d call.1 call.2) := by
  intro call
  unfold Delivered
  rw [← hout]
  rcases o.run_deliver b d with
    ⟨hnone, hrun⟩ | ⟨path, hsome, ⟨reason, hwrite, message, hrun⟩ | ⟨d', hwrite, hrun⟩⟩
  · have hcall : call = _ := hrun
    rw [hcall, hnone]
    exact Or.inr ⟨rfl, rfl, rfl⟩
  · have hcall : call = _ := hrun
    rw [hcall]
    exact Or.inl ⟨⟨path, hsome, reason, hwrite⟩, Nat.one_ne_zero, Or.inl rfl, rfl⟩
  · have hcall : call = _ := hrun
    rw [hcall, hsome]
    exact Or.inr ⟨rfl, rfl, fs.read_write hwrite, fs.find_write hwrite⟩

/-- **Every call** fails and changes nothing, or gives help, or delivers the listing. -/
theorem call_cases (fs : FileSystem σ) (library : Settings.Library) (name : String) (arguments : List String)
    (d : σ) :
    let call := (programWith library name arguments).run fs.toAnswers d
    Failed name d call.1 call.2 ∨
    (HelpRequested arguments ∧ call = (⟨0, usage name, ""⟩, d)) ∨
    (¬ HelpRequested arguments ∧ call.1.exit = 0 ∧ ∃ limit source, Ready fs library arguments d limit source ∧
      Delivered fs arguments (session limit source).state.listing d call.1 call.2) := by
  intro call
  cases hargs : ofArguments arguments with
  | error stop =>
    have hcall : call = (stop.report name, d) := by
      simp only [call, programWith, hargs, Dialogue.run]
    rw [hcall]
    by_cases hstop : stop = .help
    · rw [hstop] at hargs ⊢
      exact Or.inr (Or.inl ⟨helpRequested_of_help hargs, rfl⟩)
    · exact Or.inl (failed_of_stop hstop)
  | ok o =>
    obtain ⟨hr, -⟩ := reflects_ofArguments hargs
    rcases run_program name hargs d with ⟨-, message, hrun⟩ | ⟨limit, source, hp, hrun⟩
    · have hcall : call = _ := hrun
      rw [hcall]
      exact Or.inl ⟨Nat.one_ne_zero, Or.inl rfl, rfl⟩
    · have hcall : call = _ := hrun
      have hhelp : ¬ HelpRequested arguments := by
        rintro ⟨g, hg, hflag⟩
        exact hr.help g hg hflag
      rw [hcall]
      rcases failed_or_delivered name hr.output (session limit source).state d with
        ⟨-, hfailed⟩ | ⟨hexit, hdelivered⟩
      · exact Or.inl hfailed
      · exact Or.inr (Or.inr ⟨hhelp, hexit, limit, source, (ready_iff hargs).2 hp, hdelivered⟩)

/-- A call that is ready for a listing that can be written **succeeds**. -/
theorem exit_of_ready (name : String) (hargs : ofArguments arguments = .ok o)
    (hready : Ready fs library arguments d limit source)
    (hwrite : ∀ path, lastOf .output arguments = some path →
      ∃ d', fs.write d path (session limit source).state.listing = .ok d') :
    ((programWith library name arguments).run fs.toAnswers d).1.exit = 0 := by
  obtain ⟨hr, -⟩ := reflects_ofArguments hargs
  have hp := (ready_iff hargs).1 hready
  rcases run_program name hargs d with ⟨hnot, -⟩ | ⟨limit', source', hp', hrun⟩
  · exact absurd ⟨limit, source, hp⟩ hnot
  · obtain ⟨rfl, rfl⟩ := hp.unique hp'
    rw [hrun]
    rcases failed_or_delivered name hr.output (session limit source).state d with
      ⟨⟨path, hpath, reason, herror⟩, -⟩ | ⟨hexit, -⟩
    · obtain ⟨d', hok⟩ := hwrite path hpath
      rw [hok] at herror; cases herror
    · exact hexit

/-- The program does **all or nothing**, whatever its arguments and the files are, on any file system and with
any library that reads settings. If it fails, no file changes and the standard output is empty or the help text. If it succeeds, and was not asked for help, then
the settings were valid, the script was read and replayed under the limit in force, and the listing of that
session is handed over whole. A call that is not ready for that changes no file, and one that is succeeds
unless the listing cannot be written. -/
theorem all_or_nothing (fs : FileSystem σ) (library : Settings.Library) (name : String) (arguments : List String)
    (d : σ) :
    let report := ((programWith library name arguments).run fs.toAnswers d).1
    let d' := ((programWith library name arguments).run fs.toAnswers d).2
    (report.exit ≠ 0 → d' = d ∧ (report.stdout = "" ∨ report.stdout = usage name)) ∧
    (report.exit = 0 → HelpRequested arguments → d' = d ∧ report.stdout = usage name) ∧
    (report.exit = 0 → ¬ HelpRequested arguments → ∃ limit source, Ready fs library arguments d limit source ∧
      Delivered fs arguments (session limit source).state.listing d report d') ∧
    ((¬ ∃ limit source, Ready fs library arguments d limit source) → d' = d) ∧
    ∀ o limit source, ofArguments arguments = .ok o → Ready fs library arguments d limit source →
      (∀ path, lastOf .output arguments = some path →
        ∃ written, fs.write d path (session limit source).state.listing = .ok written) →
      report.exit = 0 := by
  intro report d'
  have hcases := call_cases fs library name arguments d
  refine ⟨?_, ?_, ?_, ?_, ?_⟩
  · intro hexit
    rcases hcases with hfailed | ⟨-, hcall⟩ | ⟨-, hzero, -⟩
    · exact ⟨hfailed.files, hfailed.stdout⟩
    · exact absurd (congrArg (fun call => call.1.exit) hcall) hexit
    · exact absurd hzero hexit
  · intro hexit hhelp
    rcases hcases with hfailed | ⟨-, hcall⟩ | ⟨hnot, -⟩
    · exact absurd hexit hfailed.exit
    · exact ⟨congrArg Prod.snd hcall, congrArg (fun call => call.1.stdout) hcall⟩
    · exact absurd hhelp hnot
  · intro hexit hhelp
    rcases hcases with hfailed | ⟨hrequested, -⟩ | ⟨-, -, hdelivered⟩
    · exact absurd hexit hfailed.exit
    · exact absurd hrequested hhelp
    · exact hdelivered
  · intro hnot
    rcases hcases with hfailed | ⟨-, hcall⟩ | ⟨-, -, limit, source, hready, -⟩
    · exact hfailed.files
    · exact congrArg Prod.snd hcall
    · exact absurd ⟨limit, source, hready⟩ hnot
  · intro o limit source hargs hready hwrite
    exact exit_of_ready name hargs hready hwrite

/-- Settings with too small a limit: overridden on the command line, the last output file is written over
by a way that leads out of its directory and back; in force, it is left as it was. -/
theorem all_or_nothing_small_limit :
    let d : Directory := ⟨[("loop.tac", some "emit := | 0 | | i\nemit GOTO | | | 1\n"),
      ("small.toml", some "max_quads = 1\n"), ("out/loop.q", some "old\n")]⟩
    let enough := ["--config", "small.toml", "-o", "new.q", "--max-quads", "2", "loop.tac",
      "-o", "out/../out/loop.q"]
    let small := ["--config", "small.toml", "loop.tac", "-o", "out/loop.q"]
    let library := Settings.Document.library
    let fs := Directory.fileSystem
    Delivered fs enough "1: i := 0\n2: GOTO 1\n" d
      ((programWith library "tacgen" enough).run fs.toAnswers d).1
      ((programWith library "tacgen" enough).run fs.toAnswers d).2 ∧
    ((programWith library "tacgen" small).run fs.toAnswers d).1.exit = 1 ∧
    ((programWith library "tacgen" small).run fs.toAnswers d).2 = d := by
  intro d enough small library fs
  have hok : ((programWith library "tacgen" enough).run fs.toAnswers d).1.exit = 0 := by decide +kernel
  have hhelp : ¬ HelpRequested enough := by decide +kernel
  have hfail : ((programWith library "tacgen" small).run fs.toAnswers d).1.exit = 1 := by decide +kernel
  have hne : ((programWith library "tacgen" small).run fs.toAnswers d).1.exit ≠ 0 := by
    rw [hfail]; exact Nat.one_ne_zero
  obtain ⟨-, -, hdelivered, -⟩ := all_or_nothing fs library "tacgen" enough d
  obtain ⟨hunchanged, -⟩ := all_or_nothing fs library "tacgen" small d
  obtain ⟨limit, source, hready, hdelivered⟩ := hdelivered hok hhelp
  -- the limit and the script of this call
  have hlimit : limit = 2 := by
    have hlast : lastOf .limit enough = some "2" := by decide +kernel
    obtain ⟨configured, -, ⟨hnone, -⟩ | ⟨text, htext, hindex⟩⟩ := hready.settings
    · rw [hlast] at hnone
      cases hnone
    · obtain rfl : "2" = text := Option.some.inj (hlast.symm.trans htext)
      have htwo : Text.index? "2".toList = some 2 := by decide +kernel
      exact Option.some.inj (hindex.symm.trans htwo)
  have hsource : source = "emit := | 0 | | i\nemit GOTO | | | 1\n" := by
    have hlast : lastOf .input enough = some "loop.tac" := by decide +kernel
    obtain ⟨path, hpath, hread⟩ := hready.script
    obtain rfl : "loop.tac" = path := Option.some.inj (hlast.symm.trans hpath)
    have htext : (Directory.read d "loop.tac").toOption = some "emit := | 0 | | i\nemit GOTO | | | 1\n" := by
      decide +kernel
    exact Option.some.inj ((congrArg Except.toOption hread).symm.trans htext)
  have hlisting : (session limit source).state.listing = "1: i := 0\n2: GOTO 1\n" := by
    rw [hlimit, hsource]
    decide +kernel
  rw [hlisting] at hdelivered
  exact ⟨hdelivered, hfail, (hunchanged hne).1⟩

end CommandLine

end ThreeAddress
