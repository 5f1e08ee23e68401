import CanisterShell.Proofs.File.Disk
import CanisterShell.Proofs.Shell.Rereading
import CanisterShell.Proofs.Shell.Soundness
import CanisterShell.Shell.Script
import Mathlib

/-!
# Variables restored from a file

Saving the variables of an environment writes a script that binds them anew, and running that script
in an environment without variables binds the same names to equal values, null standing for all that
is absent (`loadFrom_saveTo`).  This takes names that scripts can write and values whose texts
survive what is done to a script before it is read: a text with a dollar sign does not
(`load_dollar_fails`).
-/

namespace CanisterShell

open Candid

/-- Variables whose script can be read: their names differ and are written as they are, and their
values print as they read. -/
structure Restorable (vars : Table String Value) : Prop where
  distinct : (vars.map (·.1)).Nodup
  name : ∀ b ∈ vars, IsPlainName b.1
  printable : ∀ b ∈ vars, b.2.Printable
  proper : ∀ b ∈ vars, b.2.Proper

theorem Env.Sound.restorable {env : Env} (h : env.Sound IsPlainName)
    (hprint : ∀ b ∈ env.vars, b.2.Printable) : Restorable env.vars where
  distinct := h.distinct
  name := h.name
  printable := hprint
  proper := h.proper

/-! ## The script -/

namespace Syntax

open Rule (Derives lit)

def Binds (b : String × Value) (c : Command) : Prop := ∃ span, c = .mk span (.bind b.1 b.2.toExp)

theorem PhrasedIn.placed {cs : List Char} {ok : List Char → Prop} {action : Phrase (Attempt Action)}
    {a : Action} (h : Phrased ok cs action (· = .ok a))
    (hempty : Phrase.lookahead.emptyOf action = false) :
    Phrased ok cs (Phrase.placed action) fun c => ∃ span, c = .ok (.mk span a) := by
  refine h.rule fun ks x hx hxa => ?_
  have hks : ks ≠ [] := fun hnil => by
    have := (hx.head Phrase.decides_scriptGrammar).1 hnil
    rw [hempty] at this
    cases this
  exact ⟨_, .apply _ (.spanned hks hx), Rule.spanOf (ks.head hks) (ks.getLast hks), by rw [hxa]; rfl⟩

theorem phrased_binding {b : String × Value} (hname : IsPlainName b.1) {text : String}
    (h : Legible b.2 text.toList) :
    Phrased Apart ("let " ++ b.1 ++ " = " ++ text).toList (Phrase.ref .command)
      fun c => ∃ command, c = .ok command ∧ Binds b command := by
  have hk : "let" ∈ scriptGrammar.lexicon.keywords := by decide
  have hshape : ("let " ++ b.1 ++ " = " ++ text).toList
      = ("let".toList ++ ' ' :: b.1.toList) ++ (' ' :: '=' :: ' ' :: text.toList) := by simp
  have hnameTok : Phrased Apart ("let".toList ++ ' ' :: b.1.toList) (lit "let" *> Phrase.nameTok)
      (·.lexeme = b.1) :=
    (PhrasedIn.name hname.1 hname.2).behindKeyword hk
  rw [hshape]
  refine .ref ((PhrasedIn.placed (a := .bind b.1 b.2.toExp) (.orLeft (hnameTok.map₂
    (phrased_equals h.exp) (fun rest _ => apart_blank _) fun k e hk he => ?_))
    (by decide +kernel)).imp ?_)
  · rw [hk, he]
    rfl
  · rintro _ ⟨span, rfl⟩
    exact ⟨_, rfl, span, rfl⟩

theorem phrased_exported {vars : Table String Value} (hname : ∀ b ∈ vars, IsPlainName b.1)
    (h : ∀ b ∈ vars, b.2.Printable) :
    Phrased Any (Execution.exported vars).toList (Phrase.rules .commands)
      fun cs => ∃ commands, cs = .ok commands ∧ List.Forall₂ Binds vars commands := by
  induction vars with
  | nil =>
    have hnil : Derives Phrase.rules Phrase.commands [] (.ok []) := .orRight (.orRight (.pure _))
    exact (PhrasedIn.empty hnil).imp fun _ hcs => ⟨[], hcs, .nil⟩
  | cons b vars ih =>
    have hb := phrased_binding (hname b (.head _)) (legible_toTextAt (h b (.head _)) {} 0)
    have hrest := ((ih (fun b hb => hname b (.tail _ hb)) fun b hb => h b (.tail _ hb)).ref
      |>.behindBlanks ['\n'] (by simp))
    have hbehind : Phrased Any ([';'] ++ (['\n'] ++ (Execution.exported vars).toList))
        ((lit ";" *> Phrase.ref .commands) <|> pure (.ok []))
        fun cs => ∃ commands, cs = .ok commands ∧ List.Forall₂ Binds vars commands :=
      .orLeft ((PhrasedIn.mark (by decide)).seqRight hrest fun _ _ => trivial)
    have hshape : (Execution.exported (b :: vars)).toList
        = ("let " ++ b.1 ++ " = " ++ b.2.toText).toList
          ++ ([';'] ++ (['\n'] ++ (Execution.exported vars).toList)) := by
      simp [Execution.exported]
    rw [hshape]
    refine .orRight (.orLeft (hb.map₂ hbehind (fun rest _ => apart_mark (by decide) _) ?_))
    rintro _ _ ⟨c, rfl, hc⟩ ⟨cs, rfl, hcs⟩
    exact ⟨c :: cs, rfl, .cons hc hcs⟩

end Syntax

open Syntax

/-! ## Running the script -/

section

variable {σ : Type} {S : Setting σ} {depth : Nat}

/-- The text of a value is never read as a call. -/
theorem isDirectCall_toExp (v : Value) : Execution.isDirectCall v.toExp = false := by
  cases v <;> rfl

/-- A variable and what has been restored of it. -/
def Restores (b b' : String × Value) : Prop := b'.1 = b.1 ∧ b'.2.equal b.2.nulled = true

/-- What is bound without being shown changes nothing but the variable, unless it comes from a call. -/
theorem bindResult_quiet {name : String} {e : Exp} (h : Execution.isDirectCall e = false)
    (v : Value) (env : Env) (s : Session σ) :
    Gives (Execution.bindResult name e v false) (env, s) v (env.bind name v, s) := by
  rw [Gives, Execution.bindResult, Execution.takeCost, h]
  rfl

theorem map_fst_of_restores {vars bound : Table String Value}
    (h : List.Forall₂ Restores vars bound) : bound.map (·.1) = vars.map (·.1) := by
  induction h with
  | nil => rfl
  | cons h _ ih => rw [List.map_cons, List.map_cons, ih, h.1]

theorem runWithin_binding {b : String × Value} {c : Command} (hc : Binds b c)
    (hprint : b.2.Printable) (hv : b.2.Proper) (hdepth : b.2.height < depth) :
    ∃ w, Restores b (b.1, w) ∧ ∀ env s,
      Gives (runWithin S depth c) (env, s) (some w) (env.bind b.1 w, s) := by
  obtain ⟨depth, rfl⟩ := Nat.exists_eq_add_of_lt hdepth
  obtain ⟨span, rfl⟩ := hc
  obtain ⟨w, hw, heq⟩ := rereads_toExp S hprint hv (Nat.le_add_right b.2.height depth)
  refine ⟨w, ⟨rfl, heq⟩, fun env s => (hw (env, s)).bind ?_⟩
  exact (bindResult_quiet (isDirectCall_toExp b.2) w env s).bind rfl

theorem echoed_bindings {vars : Table String Value} {commands : List Command}
    (h : List.Forall₂ Binds vars commands) (hprint : ∀ b ∈ vars, b.2.Printable)
    (hv : ∀ b ∈ vars, b.2.Proper) (hdepth : ∀ b ∈ vars, b.2.height < depth) (prepared : List Char) :
    ∃ bound, List.Forall₂ Restores vars bound ∧ ∀ env s, ∃ s',
      Gives (Execution.echoed ⟨evalWithin S depth, runWithin S depth⟩ prepared commands) (env, s) ()
        ({ env with vars := env.vars.merge bound }, s') := by
  induction h with
  | nil => exact ⟨[], .nil, fun env s => ⟨s, rfl⟩⟩
  | @cons b c vars commands hc _ ih =>
    obtain ⟨w, hw, hrun⟩ := runWithin_binding (S := S) hc (hprint b (.head _)) (hv b (.head _))
      (hdepth b (.head _))
    obtain ⟨bound, hbound, hrest⟩ := ih (fun b hb => hprint b (.tail _ hb))
      (fun b hb => hv b (.tail _ hb)) fun b hb => hdepth b (.tail _ hb)
    refine ⟨(b.1, w) :: bound, .cons hw hbound, fun env s => ?_⟩
    let shown := s.tell .output ("> " ++ String.ofList (c.span.cut prepared))
    have hshow : Gives (Execution.display .output ("> " ++ String.ofList (c.span.cut prepared)))
        (env, s) () (env, shown) := rfl
    obtain ⟨s', hs'⟩ := hrest (env.bind b.1 w) shown
    have hcommand : Gives (do
        Execution.display .output ("> " ++ String.ofList (c.span.cut prepared))
        let _ ← runWithin S depth c) (env, s) () (env.bind b.1 w, shown) :=
      hshow.bind ((hrun env shown).bind rfl)
    exact ⟨s', hcommand.bind hs'⟩

/-! ## Files -/

theorem written_of_saveTo {text : String} {env env' : Env} {s s' : Session σ}
    (h : Gives (Execution.saveTo S text) (env, s) () (env', s')) :
    Doing.checkPath (env.path S text) = .ok () ∧
      s.disk.write (env.path S text) (Utf8.encode (Execution.exported env.vars)) = .ok s'.disk := by
  obtain ⟨file, state, hpath, h⟩ := h.of_bind
  cases hpath
  obtain ⟨env₁, state, henv, h⟩ := h.of_bind
  cases henv
  obtain ⟨failure?, ⟨env₁, s₁⟩, hwrite, h⟩ := h.of_bind
  obtain ⟨hwrite, rfl⟩ := hwrite.of_toRunning
  cases failure? with
  | some failure => cases h
  | none =>
    cases h
    obtain ⟨_, _, hcheck, hwrite⟩ := hwrite.of_bind
    obtain ⟨hcheck, rfl⟩ := hcheck.of_attempt
    obtain ⟨_, _, hget, hwrite⟩ := hwrite.of_bind
    cases hget
    refine ⟨hcheck, ?_⟩
    dsimp only at hwrite
    split at hwrite
    case h_1 => cases hwrite
    case h_2 disk hdisk =>
      cases hwrite
      exact hdisk

theorem path_gives {text : String} {env : Env} {s : Session σ} :
    Gives (Execution.path S text) (env, s) (env.path S text) (env, s) := rfl

theorem saveTo_gives {text : String} {env : Env} {s : Session σ} {disk : File.Disk}
    (hcheck : Doing.checkPath (env.path S text) = .ok ())
    (hwrite : s.disk.write (env.path S text) (Utf8.encode (Execution.exported env.vars)) = .ok disk) :
    Gives (Execution.saveTo S text) (env, s) () (env, { s with disk }) := by
  have hset : Gives (set { s with disk } : Doing σ PUnit) s () { s with disk } := rfl
  have hfile : Gives (Doing.writeText (env.path S text) (Execution.exported env.vars)) s none
      { s with disk } := by
    refine (Gives.attempt hcheck).bind (gives_get.bind ?_)
    dsimp only
    rw [hwrite]
    exact hset.bind rfl
  exact path_gives.bind (gives_env.bind ((hfile.toRunning env).bind rfl))

theorem readText_gives {file : File.Path} {bytes : Bytes} {source : String} {s : Session σ}
    (hcheck : Doing.checkPath file = .ok ()) (hread : s.disk.read file = .ok bytes)
    (htext : File.Disk.textOf? bytes = some source) :
    Gives (Doing.readText file) s (.ok source) s := by
  have hfile : Gives (Doing.readFile file) s (.ok bytes) s := by
    exact (Gives.attempt hcheck).bind (gives_get.bind (by rw [hread]; rfl))
  have hsource : Doing.textOf bytes = .ok source := by rw [Doing.textOf, htext]
  exact hfile.bind ((Gives.attempt hsource).bind rfl)

theorem loadFrom_exported {vars : Table String Value} (hvars : Restorable vars)
    (hdepth : ∀ b ∈ vars, b.2.height < depth) {text : String} {env : Env} (henv : env.vars = [])
    {s : Session σ} (hcheck : Doing.checkPath (env.path S text) = .ok ())
    (hread : s.disk.read (env.path S text) = .ok (Utf8.encode (Execution.exported vars))) :
    ∃ bound s', List.Forall₂ Restores vars bound ∧
      Gives (Execution.loadFrom S ⟨evalWithin S depth, runWithin S depth⟩ text) (env, s) ()
        ({ env with vars := bound }, s') := by
  have hphrase := phrased_exported hvars.name hvars.printable
  -- in what is written there is no comment and no reference, so preparing leaves it as it is
  obtain ⟨ws, hw⟩ := hphrase.written
  obtain ⟨_, hparse, commands, rfl, hbinds⟩ := PhrasedIn.parse hphrase.anywhere
  have hprepare : lift (Source.prepare S.environ
      (Source.blankShebang (Execution.exported vars).toList))
      = .ok (Execution.exported vars).toList := by
    rw [hw.blankShebang trivial, hw.prepare trivial]
    rfl
  have hcommands : readCommands (Execution.exported vars).toList = .ok commands := by
    rw [readCommands, hparse]
    rfl
  have hplain : '\r' ∉ (Execution.exported vars).toList := fun hr => (hw.plain rfl _ hr).2 rfl
  have hfile := readText_gives hcheck hread (File.Disk.textOf?_encode hplain)
  obtain ⟨bound, hbound, hrun⟩ := echoed_bindings (S := S) hbinds hvars.printable hvars.proper hdepth
    (Execution.exported vars).toList
  obtain ⟨s', hs'⟩ := hrun { env with base := (env.path S text).parent } s
  -- names that differ are appended one by one
  have hmerge : env.vars.merge bound = bound := by
    have hdistinct : (bound.map (·.1)).Nodup := by
      rw [map_fst_of_restores hbound]
      exact hvars.distinct
    rw [henv, Table.merge_of_nodup [] hdistinct, List.nil_append]
  refine ⟨bound, s', hbound, ?_⟩
  refine path_gives.bind ((hfile.toRunning env).bind ?_)
  refine (Gives.attempt hprepare).bind ((Gives.attempt hcommands).bind (gives_env.bind ?_))
  have hbase : Gives (Running.modifyEnv (σ := σ) fun env' =>
      { env' with base := (env.path S text).parent }) (env, s) ()
      ({ env with base := (env.path S text).parent }, s) := rfl
  have hback := hs'.afterwards fun env' => { env' with base := env.base }
  rw [hmerge] at hback
  exact hbase.bind hback

theorem loadFrom_unprepared {self : Engine σ} {text : String} {env : Env} {s : Session σ}
    {source : String} {e : ParseError}
    (hread : Gives (Doing.readText (env.path S text)) s (.ok source) s)
    (hprepare : Source.prepare S.environ (Source.blankShebang source.toList) = .error e) :
    (Execution.loadFrom S self text).run.run (env, s) = (.error (.error (.parse e)), (env, s)) := by
  rw [Execution.loadFrom, path_gives.run_bind, (hread.toRunning env).run_bind]
  dsimp only
  rw [hprepare]
  rfl

end

/-- Variables that have been saved are restored, in order, in an environment without variables of a
session that has the same files. -/
theorem loadFrom_saved {σ τ : Type} {S : Setting σ} {S' : Setting τ} {depth depth' : Nat}
    {span span' : Text.Span} {text text' : String} {env env' fresh : Env} {s s' : Session σ}
    {t : Session τ} (hvars : Restorable env.vars)
    (hsave : (runWithin S depth (.mk span (.saveTo text))).run.run (env, s) = (.ok none, (env', s')))
    (hfresh : fresh.vars = []) (hdisk : t.disk = s'.disk)
    (hpath : fresh.path S' text' = env.path S text) (hpos : 0 < depth')
    (hdepth : ∀ b ∈ env.vars, b.2.height + 1 < depth') :
    ∃ bound t', List.Forall₂ Restores env.vars bound ∧
      (runWithin S' depth' (.mk span' (.loadFrom text'))).run.run (fresh, t)
        = (.ok none, ({ fresh with vars := bound }, t')) := by
  obtain ⟨hcheck, hwrite⟩ : Doing.checkPath (env.path S text) = .ok () ∧
      s.disk.write (env.path S text) (Utf8.encode (Execution.exported env.vars)) = .ok s'.disk := by
    cases depth with
    | zero => cases hsave
    | succ depth =>
      obtain ⟨_, ⟨env₁, s₁⟩, hsaved, hnone⟩ := Gives.of_bind hsave
      cases hnone
      exact written_of_saveTo hsaved
  have hread : t.disk.read (fresh.path S' text') = .ok (Utf8.encode (Execution.exported env.vars)) := by
    rw [hdisk, hpath]
    exact File.Disk.read_write hwrite
  obtain ⟨depth', rfl⟩ := Nat.exists_eq_add_of_lt hpos
  rw [Nat.zero_add] at hdepth ⊢
  obtain ⟨bound, t', hbound, hload⟩ := loadFrom_exported (S := S') hvars
    (fun b hb => Nat.lt_of_succ_lt_succ (hdepth b hb)) hfresh (by rw [hpath]; exact hcheck) hread
  have hnone : Gives (pure none : Running τ (Option Value)) ({ fresh with vars := bound }, t') none
      ({ fresh with vars := bound }, t') := rfl
  exact ⟨bound, t', hbound, hload.bind hnone⟩

/-! ## Runs of scripts -/

namespace Shell

theorem runAll_cons {σ : Type} {S : Setting σ} {c : Command} {rest : List Command}
    {last value? : Option Value} {state state' : Env × Session σ}
    (h : Gives (execute S c) state value? state') :
    (runAll S (c :: rest) last).run state = (runAll S rest value?).run state' := by
  rw [runAll, StateT.run_bind, h]
  rfl

theorem runAll_failing {σ : Type} {S : Setting σ} {c : Command} {rest : List Command}
    {last : Option Value} {state state' : Env × Session σ} {f : Failure}
    (h : (execute S c).run.run state = (.error f, state')) :
    (runAll S (c :: rest) last).run state = (.error (c.span, f), state') := by
  rw [runAll, StateT.run_bind, h]
  rfl

theorem run_of_success {σ : Type} {S : Setting σ} {source : String} {commands : List Command}
    {sh : Shell σ} {value? : Option Value} {env : Env} {s : Session σ}
    (hparse : parseCommands S.environ source = .ok commands)
    (h : (runAll S commands none).run (sh.env, { sh.session with effects := [] })
      = (.ok value?, (env, s))) : run S source sh = (.ok (.success value?), ⟨env, s⟩) := by
  rw [run, hparse]
  dsimp only
  rw [runCommands]
  dsimp only
  rw [h]

theorem run_of_failure {σ : Type} {S : Setting σ} {source : String} {commands : List Command}
    {sh : Shell σ} {span : Text.Span} {f : Failure} {state : Env × Session σ}
    (hparse : parseCommands S.environ source = .ok commands)
    (h : (runAll S commands none).run (sh.env, { sh.session with effects := [] })
      = (.error (span, f), state)) : (run S source sh).1 = .ok (stopped source span f) := by
  rw [run, hparse]
  dsimp only
  rw [runCommands]
  dsimp only
  rw [h]
  rfl

end Shell

/-! ## Saved and restored -/

/-- The variables of a shell that have been saved are restored, in order, in any environment without
variables of a session that has the same files. -/
theorem loadFrom_saveTo {σ τ : Type} {S : Setting σ} {S' : Setting τ} {sh : Shell σ}
    (hsh : sh.Reachable S) (hprint : ∀ b ∈ sh.env.vars, b.2.Printable)
    (hdepth : ∀ b ∈ sh.env.vars, b.2.height + 1 < mostDepth) {span span' : Text.Span}
    {text text' : String} {env' fresh : Env} {s' : Session σ} {t : Session τ}
    (hsave : (execute S (.mk span (.saveTo text))).run.run (sh.env, sh.session)
      = (.ok none, (env', s')))
    (hfresh : fresh.vars = []) (hdisk : t.disk = s'.disk)
    (hpath : fresh.path S' text' = sh.env.path S text) :
    ∃ bound t', List.Forall₂ Restores sh.env.vars bound ∧
      (execute S' (.mk span' (.loadFrom text'))).run.run (fresh, t)
        = (.ok none, ({ fresh with vars := bound }, t')) :=
  loadFrom_saved (hsh.sound.restorable hprint) hsave hfresh hdisk hpath (by decide) hdepth

/-- A session that has no agent and no variables of the process. -/
def bareSetting : Setting Unit where
  replicaUrl := "https://ic0.app"
  now := 0
  clock := return .zero
  askPin := return ""
  newSecret := return []

/-- A shell of such a session at its start. -/
def bareShell (disk : File.Disk) : Shell Unit := .start () disk ⟨"/", []⟩

theorem path_bareSetting : (⟨"/", []⟩ : File.Path).join
    (.ofText (File.Path.expandHome bareSetting.home "f")) = ⟨"/", ["f"]⟩ := by decide +kernel

theorem checkPath_bareSetting : Doing.checkPath ⟨"/", ["f"]⟩ = .ok () := by cbv

/-- An option of a text, saved and restored. -/
theorem loadFrom_saveTo_option :
    ∃ sh : Shell Unit, sh.Reachable bareSetting ∧
      sh.env.vars = [("a", .opt (.text "x"))] ∧
      ∃ s', (execute bareSetting (.mk ⟨0, 10, 1, 1⟩ (.saveTo "f"))).run.run (sh.env, sh.session)
          = (.ok none, (sh.env, s')) ∧
        let fresh := bareShell s'.disk
        ∃ bound t', List.Forall₂ Restores sh.env.vars bound ∧
          (execute bareSetting (.mk ⟨0, 8, 1, 1⟩ (.loadFrom "f"))).run.run
            (fresh.env, fresh.session) = (.ok none, ({ fresh.env with vars := bound }, t')) := by
  let v : Value := .opt (.text "x")
  let e : Exp := .opt (.literal (.text "x"))
  let start := bareShell ⟨[], []⟩
  let sh : Shell Unit := ⟨start.env.bind "a" v, start.session⟩
  have hparse : parseCommands [] "let a = opt \"x\""
      = .ok [.mk ⟨0, 15, 1, 1⟩ (.bind "a" e)] := by cbv
  have hbind : Gives (execute bareSetting (.mk ⟨0, 15, 1, 1⟩ (.bind "a" e)))
      (start.env, start.session) (some v) (sh.env, sh.session) := rfl
  have hrun : Shell.run bareSetting "let a = opt \"x\"" start = (.ok (.success (some v)), sh) :=
    Shell.run_of_success hparse ((Shell.runAll_cons hbind).trans rfl)
  have hsh : sh.Reachable bareSetting :=
    ⟨(), ⟨[], []⟩, ⟨"/", []⟩, [.script "let a = opt \"x\""], congrArg Prod.snd hrun⟩
  have hpath : sh.env.path bareSetting "f" = ⟨"/", ["f"]⟩ := path_bareSetting
  let disk : File.Disk := ⟨[], [(["f"], .file (Utf8.encode (Execution.exported sh.env.vars)))]⟩
  have hsave : (execute bareSetting (.mk ⟨0, 10, 1, 1⟩ (.saveTo "f"))).run.run (sh.env, sh.session)
      = (.ok none, (sh.env, { sh.session with disk })) := by
    have hgives : Gives (Execution.saveTo bareSetting "f") (sh.env, sh.session) ()
        (sh.env, { sh.session with disk }) :=
      saveTo_gives (by rw [hpath]; exact checkPath_bareSetting) (by rw [hpath]; rfl)
    exact hgives.bind rfl
  have hprint : ∀ b ∈ sh.env.vars, b.2.Printable :=
    List.forall_mem_singleton.mpr (.opt (.text (by decide)))
  have hdepth : ∀ b ∈ sh.env.vars, b.2.height + 1 < mostDepth :=
    List.forall_mem_singleton.mpr (by decide)
  exact ⟨sh, hsh, rfl, _, hsave, loadFrom_saveTo hsh hprint hdepth hsave rfl rfl rfl⟩

/-! ## A text with a dollar sign -/

namespace Shell

/-- Saves a text that a script has written with an escape for its dollar sign. -/
def savesDollar : String := "let a = \"\\24x\"; export \"f\""

/-- The files once the text has been saved: the script in them holds the dollar sign itself. -/
def dollarDisk : File.Disk := ⟨[], [(["f"], .file (Utf8.encode "let a = \"$x\";\n"))]⟩

theorem run_savesDollar : ∃ sh, run bareSetting savesDollar (bareShell ⟨[], []⟩)
      = (.ok (.success none), sh) ∧ sh.env.vars = [("a", .text "$x")] ∧
        sh.session.disk = dollarDisk := by
  have hparse : parseCommands [] savesDollar
      = .ok [.mk ⟨0, 14, 1, 1⟩ (.bind "a" (.literal (.text "$x"))),
        .mk ⟨16, 26, 1, 17⟩ (.saveTo "f")] := by cbv
  have hsource : Execution.exported [("a", .text "$x")] = "let a = \"$x\";\n" := by decide +kernel
  let env := (bareShell ⟨[], []⟩).env.bind "a" (.text "$x")
  let session := (bareShell ⟨[], []⟩).session
  have hbind : Gives (execute bareSetting (.mk ⟨0, 14, 1, 1⟩ (.bind "a" (.literal (.text "$x")))))
      ((bareShell ⟨[], []⟩).env, session) (some (.text "$x")) (env, session) := rfl
  have hsave : Gives (execute bareSetting (.mk ⟨16, 26, 1, 17⟩ (.saveTo "f")))
      (env, session) none (env, { session with disk := dollarDisk }) := by
    have hpath : env.path bareSetting "f" = ⟨"/", ["f"]⟩ := path_bareSetting
    have hgives : Gives (Execution.saveTo bareSetting "f") (env, session) ()
        (env, { session with disk := dollarDisk }) := by
      refine saveTo_gives (by rw [hpath]; exact checkPath_bareSetting) ?_
      rw [hpath, show env.vars = [("a", .text "$x")] from rfl, hsource]
      rfl
    exact hgives.bind rfl
  refine ⟨⟨env, { session with disk := dollarDisk }⟩, ?_, rfl, rfl⟩
  exact run_of_success hparse ((runAll_cons hbind).trans ((runAll_cons hsave).trans rfl))

/-- A text that a script writes with an escape for its dollar sign is saved with the sign itself,
which is then read as a reference to a variable of the process that is not set. -/
theorem load_dollar_fails :
    ∃ sh, run bareSetting "let a = \"\\24x\"; export \"f\"" (bareShell ⟨[], []⟩)
      = (.ok (.success none), sh) ∧ sh.env.vars = [("a", .text "$x")] ∧
        ∃ message place?, (run bareSetting "load \"f\"" (bareShell sh.session.disk)).1
          = .ok (.failure message place?) := by
  obtain ⟨sh, hrun, hvars, hdisk⟩ := run_savesDollar
  refine ⟨sh, hrun, hvars, ?_⟩
  rw [hdisk]
  have hload : parseCommands [] "load \"f\"" = .ok [.mk ⟨0, 8, 1, 1⟩ (.loadFrom "f")] := by cbv
  have hprepare : Source.prepare [] (Source.blankShebang "let a = \"$x\";\n".toList)
      = .error ⟨.unsetVariable "x", some ⟨9, 11, 1, 10⟩, []⟩ := by cbv
  let shell := bareShell dollarDisk
  have hpath : shell.env.path bareSetting "f" = ⟨"/", ["f"]⟩ := path_bareSetting
  have hread : Gives (Doing.readText (shell.env.path bareSetting "f")) shell.session
      (.ok "let a = \"$x\";\n") shell.session := by
    rw [hpath]
    exact readText_gives checkPath_bareSetting rfl (File.Disk.textOf?_encode (by decide +kernel))
  have hexecute : (execute bareSetting (.mk ⟨0, 8, 1, 1⟩ (.loadFrom "f"))).run.run
      (shell.env, shell.session) = (.error (.error (.parse
        ⟨.unsetVariable "x", some ⟨9, 11, 1, 10⟩, []⟩)), (shell.env, shell.session)) :=
    Gives.run_bind_of_error (loadFrom_unprepared hread hprepare)
  exact ⟨_, _, run_of_failure hload (runAll_failing hexecute)⟩

end Shell

end CanisterShell
