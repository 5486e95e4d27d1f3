import ArchDiagram.Command.Session
import ArchDiagram.Proofs.Diagram.Draft
import ArchDiagram.Proofs.FileTree

/-! What a run leaves behind. It changes one file or prints one text or does nothing at all, and a run
that fails does nothing. The settings come from the first place that has any, and if these cannot
be read then the run fails, whatever there is in the places after it. -/
namespace ArchDiagram

namespace Surroundings

variable {w : Surroundings} {explicit : Option String}

/-- The file can be read and holds these settings. -/
def Holds (w : Surroundings) (path : String) (s : Settings) : Prop :=
  ∃ text, (w.lookup path).text = .ok text ∧ Toml.settings? text = some s

/-- The file from which settings are taken. Each place counts only where those before it have
nothing, and what is in the places after it does not matter. -/
inductive Consults (w : Surroundings) : Option String → Option String → Prop
  | explicit (path : String) : Consults w (some path) (some path)
  | here (present : (w.lookup localSettings).isPresent = true) :
      Consults w none (some localSettings)
  | platform {path : String} (absent : (w.lookup localSettings).isPresent = false)
      (known : w.platformSettings = some path) (present : (w.lookup path).isPresent = true) :
      Consults w none (some path)
  | nowhere (absent : (w.lookup localSettings).isPresent = false)
      (missing : ∀ path ∈ w.platformSettings, (w.lookup path).isPresent = false) :
      Consults w none none

/-- The settings of the file that is consulted, or the default ones. -/
def Provides (w : Surroundings) (explicit : Option String) (s : Settings) : Prop :=
  ∃ file, w.Consults explicit file ∧ file.elim (s = {}) fun path => w.Holds path s

lemma exists_consults (w : Surroundings) (explicit : Option String) :
    ∃ file, w.Consults explicit file := by
  cases explicit with
  | some path => exact ⟨_, .explicit path⟩
  | none =>
    by_cases hlocal : (w.lookup localSettings).isPresent = true
    · exact ⟨_, .here hlocal⟩
    · rw [Bool.not_eq_true] at hlocal
      by_cases hplatform : ∃ path ∈ w.platformSettings, (w.lookup path).isPresent = true
      · obtain ⟨path, hpath, hpresent⟩ := hplatform
        exact ⟨_, .platform hlocal hpath hpresent⟩
      · refine ⟨_, .nowhere hlocal ?_⟩
        intro path hpath
        rw [← Bool.not_eq_true]
        intro hpresent
        exact hplatform ⟨path, hpath, hpresent⟩

lemma outcome_settings {file : Option String} (h : w.Consults explicit file) :
    (w.settings explicit).outcome = file.elim (.ok {}) w.readSettings := by
  cases h with
  | explicit path => simp [settings, Attempt.outcome_bind, Except.bind]
  | here present => simp [settings, present, Attempt.outcome_bind, Except.bind]
  | platform absent known present =>
    simp [settings, absent, known, present, Attempt.outcome_bind, Except.bind]
  | nowhere absent missing =>
    cases hp : w.platformSettings with
    | none => simp [settings, absent, hp, Attempt.outcome_bind, Except.bind, -bind_pure_comp]
    | some path =>
      have hmissing := missing path hp
      simp [settings, absent, hp, hmissing, Attempt.outcome_bind, Except.bind, -bind_pure_comp]

lemma isPresent_of_text {l : Lookup} {text : String} (h : l.text = .ok text) :
    l.isPresent = true := by
  cases l with
  | absent fault => cases h
  | directory => rfl
  | file f => rfl

lemma readSettings_eq_ok_iff {path : String} {s : Settings} :
    w.readSettings path = .ok s ↔ w.Holds path s := by
  rw [readSettings, readText, Holds]
  cases htext : (w.lookup path).text with
  | error fault => split_ifs <;> simp [Except.mapError, bind, Except.bind]
  | ok text =>
    rw [if_pos (isPresent_of_text htext)]
    cases hs : Toml.settings? text <;> simp [Except.mapError, bind, Except.bind, hs]

/-- A settings file that holds no settings is a problem with that file. -/
lemma readSettings_eq_error {path : String} (h : ∀ s, ¬ w.Holds path s) :
    ∃ fault, w.readSettings path = .error (.file fault) := by
  rw [readSettings, readText]
  cases htext : (w.lookup path).text with
  | error fault =>
    split_ifs
    · exact ⟨fault, rfl⟩
    · exact ⟨_, rfl⟩
  | ok text =>
    rw [if_pos (isPresent_of_text htext)]
    cases hs : Toml.settings? text with
    | none => exact ⟨.malformedSettings, by simp [Except.mapError, bind, Except.bind, hs]⟩
    | some s => exact absurd ⟨text, htext, hs⟩ (h s)

theorem settings_eq_ok_iff {s : Settings} :
    (w.settings explicit).outcome = .ok s ↔ w.Provides explicit s := by
  have hok : ∀ {file : Option String}, w.Consults explicit file →
      ((w.settings explicit).outcome = .ok s ↔ file.elim (s = {}) fun path => w.Holds path s) := by
    intro file hfile
    rw [outcome_settings hfile]
    cases file with
    | none => simp [eq_comm]
    | some path => exact readSettings_eq_ok_iff
  constructor
  · intro h
    obtain ⟨file, hfile⟩ := w.exists_consults explicit
    exact ⟨file, hfile, (hok hfile).mp h⟩
  · rintro ⟨file, hfile, hs⟩
    exact (hok hfile).mpr hs

lemma readText_eq_ok_iff {path text : String} :
    w.readText path = .ok text ↔ (w.lookup path).text = .ok text := by
  rw [readText, Attempt.mapError_eq_ok_iff]

end Surroundings

namespace Request

variable {r : Request} {w : Surroundings}

/-- The text is the checked diagram of the input, written under the settings that are provided. -/
def Yields (r : Request) (w : Surroundings) (text : String) : Prop :=
  ∃ settings source d, w.Provides r.config settings ∧ (w.lookup r.input).text = .ok source ∧
    (Workbench.parse ⟨settings⟩ source).outcome = .ok d ∧ Workbench.toJson ⟨settings⟩ d = text

/-- Files and settings determine what a request yields. -/
lemma Yields.unique {text text' : String} (h : r.Yields w text) (h' : r.Yields w text') :
    text = text' := by
  obtain ⟨settings, source, d, hsettings, hsource, hd, rfl⟩ := h
  obtain ⟨settings', source', d', hsettings', hsource', hd', rfl⟩ := h'
  have hs := Surroundings.settings_eq_ok_iff.mpr hsettings
  obtain rfl := Except.ok.inj (hs.symm.trans (Surroundings.settings_eq_ok_iff.mpr hsettings'))
  obtain rfl := Except.ok.inj (hsource.symm.trans hsource')
  obtain rfl := Except.ok.inj (hd.symm.trans hd')
  rfl

/-- What the request wants to be done with the text. -/
def effectOf (r : Request) (text : String) : Effect :=
  if r.check then .none
  else
    match r.output with
    | some path => .write path text
    | none => .print (text ++ "\n")

/-- A request comes to something if there are settings and an input that is valid under them. -/
lemma effect_eq_ok_iff {e : Effect} :
    (r.effect w).outcome = .ok e ↔ ∃ text, r.Yields w text ∧ r.effectOf text = e := by
  have hdone : ∀ (settings : Settings) (d : Diagram),
      (if r.check then do
          Logged.report (.inputValid r.input)
          return .none
        else
          match r.output with
          | some path => return .write path (Workbench.toJson ⟨settings⟩ d)
          | none => return .print (Workbench.toJson ⟨settings⟩ d ++ "\n") :
        Attempt Problem Effect).outcome =
        .ok (r.effectOf (Workbench.toJson ⟨settings⟩ d)) := by
    intro settings d
    rw [effectOf]
    split_ifs
    · rfl
    · cases r.output <;> rfl
  simp only [effect, Attempt.outcome_bind_eq_ok, Attempt.outcome_lift,
    Attempt.outcome_liftExcept, Surroundings.settings_eq_ok_iff, Surroundings.readText_eq_ok_iff]
  constructor
  · rintro ⟨-, -, settings, hsettings, source, hsource, d, hd, he⟩
    refine ⟨_, ⟨settings, source, d, hsettings, hsource, hd, rfl⟩, ?_⟩
    exact Except.ok.inj ((hdone settings d).symm.trans he)
  · rintro ⟨text, ⟨settings, source, d, hsettings, hsource, hd, rfl⟩, rfl⟩
    exact ⟨(), trivial, settings, hsettings, source, hsource, d, hd, hdone settings d⟩

/-- An effect that cannot be had is a problem with its file. -/
lemma outcome_settle {x : Attempt Problem Effect} {e : Effect} (h : x.outcome = .ok e)
    (tried : Except FileFault Unit) :
    (settle tried x).outcome = (tried.mapError .file).map fun _ => e := by
  rw [settle, Attempt.outcome_bind, h, Except.bind]
  cases e <;> cases tried <;> rfl

end Request

lemma Transcript.output_ofRun (r : Request) (level : String) (x : Attempt Problem Effect) :
    (Transcript.ofRun r level x).output =
      match x.outcome with
      | .error _ => ""
      | .ok e => if r.check then s!"{r.input}: ok\n" else
        match e with
        | .print text => text
        | .none | .write .. => "" := by
  rw [Transcript.ofRun]
  cases x.outcome with
  | error p => rfl
  | ok e => cases e <;> rfl

namespace FileTree

variable {t t' : FileTree} {platform : Option String} {r : Request} {x : Attempt Problem Effect}

lemma run_of_error {p : Problem} (h : (r.effect (t.surroundings platform)).outcome = .error p) :
    t.run platform r = (t, r.effect (t.surroundings platform)) := by
  simp only [run, h]

lemma run_of_ok {e : Effect} (h : (r.effect (t.surroundings platform)).outcome = .ok e) :
    t.run platform r = ((t.apply e).1,
      Request.settle (t.apply e).2 (r.effect (t.surroundings platform))) := by
  simp only [run, h]

lemma apply_fst_of_error {e : Effect} {fault : FileFault} (h : (t.apply e).2 = .error fault) :
    (t.apply e).1 = t := by
  cases e with
  | none => rfl
  | print text => rfl
  | write path text =>
    rw [apply] at h ⊢
    cases hw : t.write path text.toUTF8 with
    | error fault => rfl
    | ok t' =>
      rw [hw] at h
      cases h

/-- A run that fails leaves all files alone. -/
lemma run_eq_error (h : t.run platform r = (t', x)) {p : Problem} (hp : x.outcome = .error p) :
    t' = t := by
  cases heffect : (r.effect (t.surroundings platform)).outcome with
  | error q =>
    rw [run_of_error heffect] at h
    exact (Prod.mk.inj h).1.symm
  | ok e =>
    rw [run_of_ok heffect] at h
    obtain ⟨rfl, rfl⟩ := Prod.mk.inj h
    rw [Request.outcome_settle heffect] at hp
    cases htried : (t.apply e).2 with
    | error fault => exact apply_fst_of_error htried
    | ok u =>
      rw [htried] at hp
      cases hp

/-- A run that succeeds has had the effect that the request comes to. -/
lemma run_eq_ok (h : t.run platform r = (t', x)) {e : Effect} (he : x.outcome = .ok e) :
    ∃ text, r.Yields (t.surroundings platform) text ∧ r.effectOf text = e ∧
      t.apply e = (t', .ok ()) := by
  cases heffect : (r.effect (t.surroundings platform)).outcome with
  | error p =>
    rw [run_of_error heffect] at h
    obtain ⟨rfl, rfl⟩ := Prod.mk.inj h
    rw [heffect] at he
    cases he
  | ok f =>
    rw [run_of_ok heffect] at h
    obtain ⟨rfl, rfl⟩ := Prod.mk.inj h
    rw [Request.outcome_settle heffect] at he
    cases htried : (t.apply f).2 with
    | error fault =>
      rw [htried] at he
      cases he
    | ok u =>
      rw [htried] at he
      obtain rfl : f = e := Except.ok.inj he
      obtain ⟨text, htext, hf⟩ := Request.effect_eq_ok_iff.mp heffect
      exact ⟨text, htext, hf, Prod.ext rfl htried⟩

/-- What a run of the request leaves behind: the text in the file that is asked for, where all else
is as it was, or else on the output, and all files as they were. -/
def Receives (t t' : FileTree) (output : Option String) (text printed : String) : Prop :=
  match output with
  | some path => printed = "" ∧ ∃ place f, t.target path = .ok place ∧
      (t.lookup path).rewrite text.toUTF8 = .ok f ∧ f.content = text.toUTF8 ∧
      t'.lookup path = .file f ∧ t'.entries.get? place = some (.file f) ∧
      ∀ other, other ≠ place → t'.entries.get? other = t.entries.get? other
  | none => printed = text ++ "\n" ∧ t' = t

lemma receives_of_write {path text : String} (h : t.apply (.write path text) = (t', .ok ())) :
    t.Receives t' (some path) text "" := by
  rw [apply] at h
  cases hw : t.write path text.toUTF8 with
  | error fault =>
    rw [hw] at h
    cases h
  | ok written =>
    rw [hw] at h
    obtain rfl : written = t' := (Prod.mk.inj h).1
    obtain ⟨place, f, hplace, hf, rfl, hlookup⟩ := lookup_of_write hw
    refine ⟨rfl, place, f, hplace, hf, content_of_rewrite hf, hlookup, ?_, ?_⟩
    · rw [get?_put, if_pos rfl]
    · intro other hother
      rw [get?_put, if_neg hother]

/-- A check changes nothing and prints nothing but its verdict. -/
lemma run_check (h : t.run platform r = (t', x)) (hcheck : r.check = true) :
    t' = t ∧ ∀ e, x.outcome = .ok e → e = .none ∧
      ∀ level, (Transcript.ofRun r level x).output = s!"{r.input}: ok\n" := by
  cases hx : x.outcome with
  | error p => exact ⟨run_eq_error h hx, by simp⟩
  | ok e =>
    obtain ⟨text, -, rfl, happly⟩ := run_eq_ok h hx
    rw [Request.effectOf, if_pos hcheck] at happly ⊢
    refine ⟨(Prod.mk.inj happly).1.symm, ?_⟩
    rintro _ ⟨⟩
    refine ⟨rfl, fun level => ?_⟩
    rw [Transcript.output_ofRun, hx]
    exact if_pos hcheck

lemma receives_of_run (h : t.run platform r = (t', x)) {e : Effect} (he : x.outcome = .ok e)
    (hcheck : r.check = false) :
    ∃ text, r.Yields (t.surroundings platform) text ∧
      ∀ level, t.Receives t' r.output text (Transcript.ofRun r level x).output := by
  obtain ⟨text, htext, rfl, happly⟩ := run_eq_ok h he
  refine ⟨text, htext, ?_⟩
  intro level
  rw [Transcript.output_ofRun, he]
  simp only [Request.effectOf, hcheck, Bool.false_eq_true, if_false] at happly ⊢
  cases hout : r.output with
  | none =>
    rw [hout] at happly
    exact ⟨rfl, (Prod.mk.inj happly).1.symm⟩
  | some path =>
    rw [hout] at happly
    exact receives_of_write happly

/-- Settings that cannot be had from the file that is consulted are not looked for elsewhere. -/
lemma run_of_broken_settings (h : t.run platform r = (t', x)) {path : String}
    (hpath : (t.surroundings platform).Consults r.config (some path))
    (hbroken : ∀ s, ¬ (t.surroundings platform).Holds path s) :
    ∃ fault, x.outcome = .error (.file fault) := by
  obtain ⟨fault, hfault⟩ := Surroundings.readSettings_eq_error hbroken
  have hsettings := Surroundings.outcome_settings hpath
  rw [Option.elim_some, hfault] at hsettings
  have heffect : (r.effect (t.surroundings platform)).outcome = .error (.file fault) := by
    simp [Request.effect, Attempt.outcome_bind, hsettings, Except.bind]
  rw [run_of_error heffect] at h
  obtain ⟨rfl, rfl⟩ := Prod.mk.inj h
  exact ⟨fault, heffect⟩

/-- A run succeeds if there is a text to be had and the file for it, if any, can be written. -/
lemma run_succeeds (h : t.run platform r = (t', x)) {text : String}
    (htext : r.Yields (t.surroundings platform) text)
    (hwrite : r.check = false → ∀ path ∈ r.output,
      ∃ written, t.write path text.toUTF8 = .ok written) :
    ∃ e, x.outcome = .ok e := by
  have heffect := Request.effect_eq_ok_iff.mpr ⟨text, htext, rfl⟩
  have happly : (t.apply (r.effectOf text)).2 = .ok () := by
    rw [Request.effectOf]
    split_ifs with hcheck
    · rfl
    · cases hout : r.output with
      | none => rfl
      | some path =>
        obtain ⟨written, hwritten⟩ := hwrite (by simpa using hcheck) path hout
        simp only [apply]
        rw [hwritten]
  rw [run_of_ok heffect] at h
  obtain ⟨rfl, rfl⟩ := Prod.mk.inj h
  rw [Request.outcome_settle heffect, happly]
  exact ⟨_, rfl⟩

/-- A run changes files or prints a diagram only if it succeeds and is not a mere check, and then it
leaves nothing but the diagram of the input behind. -/
theorem run_all_or_nothing (h : t.run platform r = (t', x)) :
    (∀ p, x.outcome = .error p → t' = t ∧ ∀ level, (Transcript.ofRun r level x).output = "") ∧
    (r.check = true → t' = t ∧ ∀ e, x.outcome = .ok e → e = .none ∧
      ∀ level, (Transcript.ofRun r level x).output = s!"{r.input}: ok\n") ∧
    (∀ e, x.outcome = .ok e → r.check = false →
      ∃ text, r.Yields (t.surroundings platform) text ∧
        ∀ level, t.Receives t' r.output text (Transcript.ofRun r level x).output) ∧
    (∀ path, (t.surroundings platform).Consults r.config (some path) →
      (∀ s, ¬ (t.surroundings platform).Holds path s) →
      ∃ fault, x.outcome = .error (.file fault)) ∧
    (∀ text, r.Yields (t.surroundings platform) text →
      (r.check = false → ∀ path ∈ r.output, ∃ written, t.write path text.toUTF8 = .ok written) →
      ∃ e, x.outcome = .ok e) := by
  refine ⟨?_, run_check h, ?_, ?_, ?_⟩
  · intro p hp
    refine ⟨run_eq_error h hp, ?_⟩
    intro level
    rw [Transcript.output_ofRun, hp]
  · intro e he hcheck
    exact receives_of_run h he hcheck
  · intro path hpath hbroken
    exact run_of_broken_settings h hpath hbroken
  · intro text htext hwrite
    exact run_succeeds h htext hwrite

/-- A tree with settings of its own and settings of the user, and with an empty directory. -/
def sampleTree (localEntry userEntry : Entry) : FileTree :=
  .ofEntries [("a.iso", .file { content := "component a { }".toUTF8 }),
    ("isoarch/config.toml", localEntry), ("home/config.toml", userEntry), ("out", .directory),
    ("old.json", .file { content := "[]".toUTF8 })]

def compactSettings : Entry :=
  .file { content := "[output]\npretty = false\n".toUTF8 }

def malformedSettings : Entry :=
  .file { content := "pretty =".toUTF8 }

/-- Settings that are there but cannot be had. -/
def brokenSettings : List Entry :=
  [malformedSettings, .file { content := ⟨#[0xff]⟩ }, .directory,
    .file { content := "".toUTF8, unreadable := some .permissionDenied }]

def sampleRequest : Request where
  input := "a.iso"
  output := some "out/../out/new.json"

def sampleText : String :=
  "\x7b\"layout\":\x7b\"direction\":\"TB\",\"ranksep\":50.0,\"nodesep\":30.0\x7d," ++
    "\"styles\":\x7b\x7d,\"components\":\x7b\"a\":\x7b\"id\":\"a\",\"label\":\"a\",\"style\":null," ++
    "\"size\":\x7b\"width\":100.0,\"height\":60.0\x7d,\"parent\":null\x7d\x7d," ++
    "\"containers\":\x7b\x7d,\"relations\":[],\"annotations\":\x7b\x7d\x7d"

lemma sampleText_yields : sampleRequest.Yields
    ((sampleTree compactSettings malformedSettings).surroundings (some "home/config.toml"))
    sampleText := by
  have heffect : (sampleRequest.effect ((sampleTree compactSettings malformedSettings).surroundings
      (some "home/config.toml"))).outcome.toOption.any
        (· = .write "out/../out/new.json" sampleText) := by
    decide +kernel
  obtain ⟨e, he, hsample⟩ := Attempt.exists_eq_ok heffect
  obtain ⟨text, htext, rfl⟩ := Request.effect_eq_ok_iff.mp he
  obtain ⟨-, rfl⟩ := Effect.write.inj (of_decide_eq_true hsample)
  exact htext

lemma sampleTree_writes : ∃ written, (sampleTree compactSettings malformedSettings).write
    "out/../out/new.json" sampleText.toUTF8 = .ok written := by
  have hwritten : ((sampleTree compactSettings malformedSettings).write "out/../out/new.json"
      sampleText.toUTF8).isOk = true := by
    decide +kernel
  cases hw : (sampleTree compactSettings malformedSettings).write "out/../out/new.json"
      sampleText.toUTF8 with
  | error fault =>
    rw [hw] at hwritten
    cases hwritten
  | ok written => exact ⟨written, rfl⟩

lemma brokenSettings_not_holds {entry : Entry} (hentry : entry ∈ brokenSettings) (s : Settings) :
    ¬ ((sampleTree entry compactSettings).surroundings (some "home/config.toml")).Holds
      localSettings s := by
  have hnone : ∀ entry ∈ brokenSettings, (((sampleTree entry compactSettings).surroundings
      (some "home/config.toml")).lookup localSettings).text.toOption.bind Toml.settings? =
        none := by
    decide +kernel
  rintro ⟨text, hok, hs⟩
  have htoml := hnone entry hentry
  rw [hok] at htoml
  cases hs.symm.trans htoml

/-- With local settings the broken ones of the user do not matter; broken local ones do, even if the
user's are fine. -/
theorem all_or_nothing_of_settled :
    (∃ t' x, (sampleTree compactSettings malformedSettings).run (some "home/config.toml")
        sampleRequest = (t', x) ∧
      sampleRequest.Yields ((sampleTree compactSettings malformedSettings).surroundings
        (some "home/config.toml")) sampleText ∧
      t'.lookup "out/../out/new.json" = .file { content := sampleText.toUTF8 } ∧
      t'.entries.get? ["old.json"] = some (.file { content := "[]".toUTF8 })) ∧
    ∀ entry ∈ brokenSettings, ∃ x fault,
      (sampleTree entry compactSettings).run (some "home/config.toml") sampleRequest =
        (sampleTree entry compactSettings, x) ∧
      x.outcome = .error (.file fault) := by
  constructor
  · obtain ⟨⟨t', x⟩, hrun⟩ : ∃ p, (sampleTree compactSettings malformedSettings).run
        (some "home/config.toml") sampleRequest = p := ⟨_, rfl⟩
    have hall := run_all_or_nothing hrun
    have hwrite : ∀ path ∈ sampleRequest.output, ∃ written,
        (sampleTree compactSettings malformedSettings).write path sampleText.toUTF8 =
          .ok written := by
      rintro _ ⟨⟩
      exact sampleTree_writes
    obtain ⟨e, he⟩ := hall.2.2.2.2 sampleText sampleText_yields fun _ => hwrite
    obtain ⟨text, htext, hreceives⟩ := hall.2.2.1 e he rfl
    obtain rfl := htext.unique sampleText_yields
    obtain ⟨-, place, f, hplace, hf, -, hlookup, -, hother⟩ := hreceives "warn"
    have habsent : (sampleTree compactSettings malformedSettings).lookup "out/../out/new.json" =
        .absent .notFound := by
      decide +kernel
    have htarget : (sampleTree compactSettings malformedSettings).target "out/../out/new.json" =
        .ok ["out", "new.json"] := by
      decide +kernel
    rw [habsent] at hf
    obtain rfl := Except.ok.inj hf
    obtain rfl := Except.ok.inj (htarget.symm.trans hplace)
    refine ⟨t', x, hrun, htext, hlookup, ?_⟩
    rw [hother _ (by decide)]
    decide +kernel
  · have hpresent : ∀ entry ∈ brokenSettings, (((sampleTree entry compactSettings).surroundings
        (some "home/config.toml")).lookup localSettings).isPresent = true := by
      decide +kernel
    intro entry hentry
    obtain ⟨⟨t', x⟩, hrun⟩ : ∃ p, (sampleTree entry compactSettings).run (some "home/config.toml")
        sampleRequest = p := ⟨_, rfl⟩
    have hall := run_all_or_nothing hrun
    obtain ⟨fault, hfault⟩ := hall.2.2.2.1 localSettings (.here (hpresent entry hentry))
      (brokenSettings_not_holds hentry)
    obtain rfl := (hall.1 _ hfault).1
    exact ⟨x, fault, hrun, hfault⟩

end FileTree

end ArchDiagram
