import Chip8.CommandLine.Run
import Chip8.Proofs.Assignment
import Chip8.Proofs.Frames
import Chip8.Proofs.KeyWait
import Chip8.Proofs.Pictures
import Chip8.Showcase.Run

/-!
# The two runners

A program file can be run from the command line and in the showcase.  Both start an interpreter,
press the keys, load the program and run frames of one cycle.  So both show what single steps lead
to, and the number of steps per call makes no difference.
-/

namespace Chip8

open Interpreter

/-- What both runners can be asked for: a program file that can be read and fits into memory, a
seed, the keys that are held down, a length of time and a number of steps per call. -/
structure Job (reader : Reader) where
  path : String
  program : List UInt8
  readable : readRom reader path = .ok program
  fits : program.length ≤ programCapacity
  seed : Nat
  keys : List Int
  isKey : ∀ key ∈ keys, Machine.IsKey key
  seconds : Float
  nonneg : 0.0 ≤ seconds
  isFinite : (seconds * cyclesPerSecond).isFinite = true
  stepsPerCall : Nat
  pos : 1 ≤ stepsPerCall
  bounded : stepsPerCall < Nat.pow 2 1000

theorem Except.ok_bind {ε α β : Type} (a : α) (f : α → Except ε β) :
    (Except.ok a >>= f) = f a := rfl

namespace Job

variable {reader : Reader} (job : Job reader)

/-! ## The beginning of a run -/

def bytes : List Int :=
  job.program.map fun byte => (byte.toNat : Int)

def calls (now : Float) : List (Call Float) :=
  [.start now, .setKeys job.keys, .loadProgram job.bytes]

/-- An interpreter after its initialization, with the keys pressed. -/
def held (now : Float) (s : Interpreter Float) : Interpreter Float :=
  { s with
    machine := { endState (Machine.resetControl s.machine) with
      programLength := 0
      keys := Machine.pressing job.keys }
    lastTick := some now
    pending := TimeScale.zero
    journal := .initialized programStart :: s.journal }

/-- An interpreter that has loaded its program as well. -/
def ready (now : Float) (s : Interpreter Float) : Interpreter Float :=
  { job.held now s with
    machine := { (job.held now s).machine with
      memory := Machine.overlay (job.held now s).machine.memory programStart
        (job.bytes.map UInt8.ofInt)
      programLength := job.bytes.length }
    journal := .programLoaded job.bytes.length :: (job.held now s).journal }

theorem isByte_of_mem_bytes : ∀ value ∈ job.bytes, IsByte value :=
  isByte_of_mem_map job.program

theorem length_bytes : job.bytes.length = job.program.length :=
  List.length_map _

section

variable {s : Interpreter Float} (hnew : s.initialized = false) (now : Float)

theorem loadProgram_held :
    loadProgram job.bytes (job.held now s) = .ok true (job.ready now s) := by
  have hlength : job.bytes.length ≤ programCapacity := by
    rw [length_bytes]
    exact job.fits
  rw [loadProgram_apply, if_pos (by rfl), if_pos job.isByte_of_mem_bytes, if_pos hlength]
  rfl

theorem loadRom_held :
    loadRom reader job.path (job.held now s) = .ok true (job.ready now s) := by
  rw [loadRom_apply, if_pos (by rfl), job.readable]
  exact job.loadProgram_held now

include hnew

theorem start_setKeys :
    (do start now; setKeys job.keys : Action Float Unit) s = .ok () (job.held now s) := by
  have hnone : (job.keys.find? fun key => ¬ Machine.IsKey key) = none := by
    simpa using job.isKey
  rw [bind_apply, start_apply, if_neg (Bool.eq_false_iff.mp hnew)]
  dsimp only
  rw [setKeys_apply, hnone]
  rfl

theorem afterAll_calls : afterAll (job.calls now) s = job.ready now s := by
  have hkeys : endState (setKeys job.keys (endState (start now s))) = job.held now s := by
    have hbegin := job.start_setKeys hnew now
    rw [bind_apply, start_apply, if_neg (Bool.eq_false_iff.mp hnew)] at hbegin
    dsimp only at hbegin
    rw [start_apply, if_neg (Bool.eq_false_iff.mp hnew)]
    exact congrArg endState hbegin
  calc
    afterAll (job.calls now) s =
        endState (loadProgram job.bytes (endState (setKeys job.keys (endState (start now s))))) :=
      rfl
    _ = job.ready now s := by
      rw [hkeys, job.loadProgram_held now]
      rfl

end

theorem ready_paced (count : Nat) (last : Option Float) (pending now later : Float)
    (s : Interpreter Float) :
    job.ready now (s.paced count last pending) =
      (job.ready later s).paced count (some now) TimeScale.zero := rfl

/-! ## The frames -/

theorem exists_frameCount :
    ∃ frames, wholePart (job.seconds * cyclesPerSecond) = .ok frames ∧
      frameCount job.seconds cyclesPerSecond = .ok frames.toNat := by
  obtain ⟨frames, hframes⟩ := exists_wholePart job.isFinite
  refine ⟨frames, hframes, ?_⟩
  rw [frameCount, hframes]

section

variable {perCall : Int} {first : Interpreter Float}
  (hcreate : create perCall job.seed none = .ok first)

include hcreate

/-- A run of the job ends where single steps of any interpreter with this seed lead to, up to the
pace. -/
theorem runFor_ready
    {frames : Nat} (hframes : frameCount job.seconds cyclesPerSecond = .ok frames) (now : Float)
    {s : Interpreter Float} (hs : create job.stepsPerCall job.seed none = .ok s) :
    runFor job.seconds cyclesPerSecond (job.ready 0.0 s) =
      .ok () ((stepped frames (afterAll (job.calls now) first)).paced job.stepsPerCall (some 0.0)
        TimeScale.zero) := by
  have hready := job.afterAll_calls (initialized_of_create hcreate) now
  have hpaced : job.ready 0.0 s =
      (job.ready now first).paced job.stepsPerCall (some 0.0) TimeScale.zero := by
    have hsame : s = first.paced job.stepsPerCall none TimeScale.zero := by
      rw [eq_of_create hcreate, eq_of_create hs, Int.toNat_natCast]
      rfl
    rw [hsame]
    exact job.ready_paced _ _ _ _ _ _
  have hintact : (job.ready now first).machine.Intact := by
    rw [← hready]
    exact ((fresh_of_create hcreate).reachable.afterAll _).intact
  have hreturns : (job.ready now first).ListenerReturns := by
    intro listener hlistener
    have hnone : first.listener = some listener := hlistener
    rw [eq_of_create hcreate] at hnone
    cases hnone
  rw [hpaced, hready, runFor, hframes]
  exact runFrames_frame job.bounded hintact hreturns rfl job.pos frames

end

end Job

/-! ## The command line -/

namespace CommandLine

/-- The checks, where nothing but the program can be vacant. -/
theorem check_eq
    {settings : Settings} (hfilled : ∀ setting ∈ settings.vacant, setting = .program) :
    check settings =
      if settings.seconds < 0.0 then .error (refuse .negativeSeconds)
      else if settings.fps ≤ 0.0 then .error (refuse .fpsNotPositive)
      else if settings.stepsPerCall < 1 then .error (refuse .noSteps)
      else
        match KeyList.read settings.keys with
        | .ok keys => .ok keys
        | .error _ => .error (refuse (.badKeyList settings.keys)) := by
  have hvacant {setting : Setting} (hother : setting ≠ .program) :
      checkVacant settings setting = .ok () :=
    if_neg fun hmem => hother (hfilled setting hmem)
  rw [check, hvacant (by decide), hvacant (by decide), hvacant (by decide), hvacant (by decide)]
  by_cases hseconds : settings.seconds < 0.0
  · rw [if_pos hseconds, checkRange, decide_eq_true hseconds]
    rfl
  rw [if_neg hseconds, checkRange, decide_eq_false hseconds]
  by_cases hfps : settings.fps ≤ 0.0
  · rw [if_pos hfps, checkRange, decide_eq_true hfps]
    rfl
  rw [if_neg hfps, checkRange, decide_eq_false hfps]
  by_cases hsteps : settings.stepsPerCall < 1
  · rw [if_pos hsteps, checkRange, decide_eq_true hsteps]
    rfl
  rw [if_neg hsteps, checkRange, decide_eq_false hsteps]
  cases KeyList.read settings.keys <;> rfl

/-- Settings that ask for a job, at the usual frame rate and with the full output. -/
structure Settings.AskFor {reader : Reader} (settings : Settings) (job : Job reader) : Prop where
  rom : settings.rom = job.path
  seconds : settings.seconds = job.seconds
  fps : settings.fps = cyclesPerSecond
  stepsPerCall : settings.stepsPerCall = job.stepsPerCall
  seed : settings.seed = some (job.seed : Int)
  keys : KeyList.read settings.keys = .ok job.keys
  quiet : settings.quiet = false
  vacant : settings.vacant = []

variable {reader : Reader} {job : Job reader} {settings : Settings}

theorem check_of_askFor (h : settings.AskFor job) : check settings = .ok job.keys := by
  have hseconds : ¬ settings.seconds < 0.0 := by
    rw [h.seconds]
    exact not_lt_zero_of_le job.nonneg
  have hfps : ¬ settings.fps ≤ 0.0 := by
    rw [h.fps]
    decide +kernel
  have hsteps : ¬ settings.stepsPerCall < 1 := by
    have hpos := job.pos
    rw [h.stepsPerCall]
    omega
  have hfilled : ∀ setting ∈ settings.vacant, setting = .program := by
    rw [h.vacant]
    exact nofun
  rw [check_eq hfilled, if_neg hseconds, if_neg hfps, if_neg hsteps, h.keys]

theorem paragraph_append (first second : List String) :
    paragraph (first ++ second) = paragraph first ++ paragraph second := by
  rw [paragraph, List.map_append, String.join_append]
  rfl

/-- What the command line shows of a job that ends in a state. -/
def shown (job : Job reader) (last : Interpreter Float) : List String :=
  ["Loaded ROM: " ++ job.path ++ " (" ++ toString (job.program.length : Int) ++ " bytes)",
    rule,
    Screen.text Screen.litMark Screen.darkMark last.machine.screen,
    rule,
    "Cycles: " ++ toString last.machine.cycles,
    "State: " ++ last.machine.runState.name,
    "Beeps: " ++ toString last.beeps,
    "Registers: " ++ registerText last.machine.registers]

theorem shown_eq (h : settings.AskFor job) (last : Interpreter Float) :
    shown job last = opening settings job.program.length ++ closing settings last := by
  simp only [opening, closing, h.quiet, h.rom, Bool.false_eq_true, if_false]
  rfl

/-- The command line begins a run of the job, and shows what the run ends with. -/
theorem runSettings_of_askFor
    (h : settings.AskFor job) {last s : Interpreter Float}
    (hs : create job.stepsPerCall job.seed none = .ok s)
    (hrun : runFor job.seconds cyclesPerSecond (job.ready 0.0 s) =
      .ok () (last.paced job.stepsPerCall (some 0.0) TimeScale.zero)) (chance : Int) :
    (runSettings reader chance settings).ending = .ok (if last.isHalted then 1 else 0) ∧
      (runSettings reader chance settings).output = paragraph (shown job last) := by
  have hprepare : prepare settings job.keys (settings.seed.getD chance) = .ok (job.held 0.0 s) := by
    have hbegin := job.start_setKeys (initialized_of_create hs) 0.0
    rw [prepare, h.seed, h.stepsPerCall, Option.getD_some, hs, Except.ok_bind, hbegin]
  have hlength : (job.ready 0.0 s).machine.programLength = job.program.length := by
    rw [← job.length_bytes]
    rfl
  have hperform : runSettings reader chance settings =
      { ending := .ok (if last.isHalted then 1 else 0)
        output := paragraph (shown job last)
        log := report settings (last.paced job.stepsPerCall (some 0.0) TimeScale.zero) } := by
    rw [runSettings, check_of_askFor h]
    dsimp only
    rw [hprepare]
    dsimp only
    rw [h.vacant, if_neg List.not_mem_nil, loadAndPerform, h.rom, job.loadRom_held]
    dsimp only
    rw [perform, h.seconds, h.fps, hrun, hlength, shown_eq h, paragraph_append]
    rfl
  rw [hperform]
  exact ⟨rfl, rfl⟩

/-- The command line of a job, with the texts of its time and its keys. -/
def commandLine (job : Job reader) (seconds keys : String) : List String :=
  ["--rom", job.path, "--seconds", seconds, "--seed", toString job.seed, "--keys", keys,
    "--steps-per-call", toString job.stepsPerCall]

section

variable {seconds keys : String} (hpath : IsValue job.path)
  (hseconds : FloatLiteral.read? seconds = some job.seconds) (hsecondsValue : IsValue seconds)
  (hkeysValue : IsValue keys)

include hpath hseconds hsecondsValue hkeysValue

theorem parse_commandLine :
    parse (commandLine job seconds keys) =
      if job.seed < IntegerLiteral.leastLonger 4300 then
        .ok
          { rom := job.path
            seconds := job.seconds
            stepsPerCall := job.stepsPerCall
            seed := some (job.seed : Int)
            keys := keys }
      else .error (.usage (.notAnInteger .seed (toString job.seed))) := by
  have hsteps : job.stepsPerCall < IntegerLiteral.leastLonger 4300 := by
    have hpow : Nat.pow 2 1000 ≤ IntegerLiteral.leastLonger 4300 := by decide +kernel
    exact job.bounded.trans_le hpow
  have hreadSeconds : Draft.readFloat .seconds seconds = .ok job.seconds := by
    rw [Draft.readFloat, hseconds]
  have hreadSteps : Draft.readInteger .stepsPerCall (toString job.stepsPerCall) =
      .ok job.stepsPerCall := by
    rw [Draft.readInteger, IntegerLiteral.read?_toString, if_pos hsteps]
  have hreadSeed : Draft.readInteger .seed (toString job.seed) =
      if job.seed < IntegerLiteral.leastLonger 4300 then .ok job.seed
      else .error (.usage (.notAnInteger .seed (toString job.seed))) := by
    rw [Draft.readInteger, IntegerLiteral.read?_toString]
    by_cases hseed : job.seed < IntegerLiteral.leastLonger 4300
    · rw [if_pos hseed, if_pos hseed]
    · rw [if_neg hseed, if_neg hseed]
  let assignments : List Assignment :=
    [⟨"--rom", .rom, job.path, rfl, rfl, hpath⟩,
      ⟨"--seconds", .seconds, seconds, rfl, rfl, hsecondsValue⟩,
      ⟨"--seed", .seed, toString job.seed, rfl, rfl, isValue_toString _⟩,
      ⟨"--keys", .keys, keys, rfl, rfl, hkeysValue⟩,
      ⟨"--steps-per-call", .stepsPerCall, toString job.stepsPerCall, rfl, rfl, isValue_toString _⟩]
  have hparse : parse (commandLine job seconds keys) =
      (assignments.foldlM Assignment.assign {}).bind Draft.finish := parse_assignments assignments
  rw [hparse]
  by_cases hseed : job.seed < IntegerLiteral.leastLonger 4300
  · rw [if_pos hseed] at hreadSeed ⊢
    simp only [assignments, List.foldlM_cons, List.foldlM_nil, Assignment.assign, Draft.assign,
      hreadSeconds, hreadSeed, hreadSteps]
    rfl
  · rw [if_neg hseed] at hreadSeed ⊢
    simp only [assignments, List.foldlM_cons, List.foldlM_nil, Assignment.assign, Draft.assign,
      hreadSeconds, hreadSeed]
    rfl

end

end CommandLine

/-! ## The showcase -/

namespace Showcase

structure Request.AskFor {reader : Reader} (request : Request) (job : Job reader) : Prop where
  file : request.file = some job.path
  seconds : request.seconds = job.seconds
  stepsPerCall : request.stepsPerCall = job.stepsPerCall
  seed : request.seed = some (job.seed : Int)
  keys : (request.keys.map String.toList).mapM KeyList.readKey = .ok job.keys

variable {reader : Reader} {job : Job reader} {request : Request}

/-- The showcase begins a run of the job, and shows what the run ends with. -/
theorem run_of_askFor
    (hreader : ∀ contents, reader (.ofText "") ≠ .ok contents)
    (h : request.AskFor job) {last s : Interpreter Float}
    (hs : create job.stepsPerCall job.seed none = .ok s)
    (hgrid : Machine.IsGrid last.machine.screen)
    (hrun : runFor job.seconds cyclesPerSecond (job.ready 0.0 s) =
      .ok () (last.paced job.stepsPerCall (some 0.0) TimeScale.zero)) (chance : Int) :
    run reader chance request =
      .ok
        { picture := some (Picture.ofBlocks Picture.usualScale.toNat last.machine.screen)
          summary := summaryText (Path.ofText job.path).lastName last.summary
          registers := registerText last.summary.registers } := by
  have hnamed : job.path ≠ "" := by
    intro hempty
    have hread := job.readable
    rw [hempty, readRom, if_neg (by decide)] at hread
    cases hcontents : reader (.ofText "") with
    | ok contents => exact hreader contents hcontents
    | error fault =>
        rw [hcontents] at hread
        cases hread
  have hfile : request.file.filter (· != "") = some job.path := by
    rw [h.file]
    exact Option.filter_some_pos (by simpa using hnamed)
  have hseed : request.seedOr chance = job.seed := by
    rw [Request.seedOr, h.seed]
    exact if_pos (Int.natCast_nonneg _)
  have hload : load reader request (job.held 0.0 s) =
      .ok (some (Path.ofText job.path).lastName) (job.ready 0.0 s) := by
    rw [load, hfile]
    dsimp only
    rw [bind_apply, job.loadRom_held]
    rfl
  have hperform : perform reader request s =
      .ok (some (Path.ofText job.path).lastName)
        (last.paced job.stepsPerCall (some 0.0) TimeScale.zero) := by
    have hbegin := job.start_setKeys (initialized_of_create hs) 0.0
    rw [bind_apply] at hbegin
    rw [perform, h.keys, h.seconds, bind_apply]
    cases hstart : start 0.0 s with
    | error e t =>
        rw [hstart] at hbegin
        cases hbegin
    | ok done t =>
        rw [hstart] at hbegin
        dsimp only at hbegin ⊢
        rw [bind_apply, hbegin]
        dsimp only
        rw [bind_apply, hload]
        dsimp only
        rw [Option.isSome_some, if_pos rfl, bind_apply, hrun]
        rfl
  have hattempt : attempt reader chance request =
      .ok
        { picture := some (Picture.ofBlocks Picture.usualScale.toNat last.machine.screen)
          summary := summaryText (Path.ofText job.path).lastName last.summary
          registers := registerText last.summary.registers } := by
    rw [attempt, h.stepsPerCall, hseed, hs, Except.ok_bind, hperform]
    change exhibit (Path.ofText job.path).lastName last = _
    rw [exhibit, Picture.ofScreen_usualScale hgrid]
    rfl
  rw [run, hattempt]

end Showcase

/-! ## Main result -/

/-- Both runners show what single steps lead to, whatever the number of steps per call is.  A step
is taken for each whole frame of a sixtieth of a second, until the machine stops.  The command line
prints the screen and the figures of that run and tells by its exit status whether the machine has
stopped, and the showcase shows the picture, the figures and the registers of the same run.  A job
can be asked for on the command line as long as the text of its seed can be read. -/
theorem runners_agree
    {reader : Reader} (hreader : ∀ contents, reader (.ofText "") ≠ .ok contents) (job : Job reader)
    {perCall : Int} {first : Interpreter Float}
    (hcreate : create perCall job.seed none = .ok first) (now : Float) (chance : Int) :
    ∃ frames, wholePart (job.seconds * 60.0) = .ok frames ∧
      let begun := afterAll [.start now, .setKeys job.keys, .loadProgram job.bytes] first
      let last := stepped frames.toNat begun
      (∀ (arguments : List String) (settings : CommandLine.Settings),
        CommandLine.parse arguments = .ok settings → settings.AskFor job →
          let transcript := CommandLine.run reader chance arguments
          transcript.ending = .ok (if last.isHalted then 1 else 0) ∧
            transcript.output = CommandLine.paragraph (CommandLine.shown job last)) ∧
      (∀ seconds keys : String, FloatLiteral.read? seconds = some job.seconds →
        KeyList.read keys = .ok job.keys → CommandLine.IsValue job.path →
        CommandLine.IsValue seconds → CommandLine.IsValue keys →
        job.seed < IntegerLiteral.leastLonger 4300 →
          ∃ settings : CommandLine.Settings,
            CommandLine.parse (CommandLine.commandLine job seconds keys) = .ok settings ∧
              settings.AskFor job) ∧
      ∀ request : Showcase.Request, request.AskFor job →
        Showcase.run reader chance request =
          .ok
            { picture := some (Picture.ofBlocks Picture.usualScale.toNat last.machine.screen)
              summary := Showcase.summaryText (Path.ofText job.path).lastName last.summary
              registers := Showcase.registerText last.machine.registers } := by
  obtain ⟨frames, hframes, hcount⟩ := job.exists_frameCount
  have hs : ∃ s : Interpreter Float, create job.stepsPerCall job.seed none = .ok s := by
    have hpos : ¬ (job.stepsPerCall : Int) < 1 := by
      have hpos := job.pos
      omega
    exact ⟨_, if_neg hpos⟩
  obtain ⟨s, hs⟩ := hs
  have hrun := job.runFor_ready hcreate hcount now hs
  have hgrid : Machine.IsGrid
      (stepped frames.toNat (afterAll (job.calls now) first)).machine.screen := by
    have hintact := ((fresh_of_create hcreate).reachable.afterAll (job.calls now)).intact
    exact (intact_stepped hintact _).toWellFormed.isGrid
  refine ⟨frames, hframes, ?_, ?_, ?_⟩
  · intro arguments settings hparse hask
    have hsettings := CommandLine.runSettings_of_askFor hask hs hrun chance
    dsimp only
    rw [CommandLine.run, hparse]
    exact hsettings
  · intro seconds keys hseconds hkeys hpath hsecondsValue hkeysValue hseed
    have hparse := CommandLine.parse_commandLine hpath hseconds hsecondsValue hkeysValue
    rw [if_pos hseed] at hparse
    exact ⟨_, hparse, rfl, rfl, rfl, rfl, rfl, hkeys, rfl, rfl⟩
  · intro request hask
    exact Showcase.run_of_askFor hreader hask hs hgrid hrun chance

/-! ## A program that jumps to itself -/

/-- The path without names is that of a directory. -/
theorem Tree.read_empty (tree : Tree) (contents : List UInt8) :
    tree.read (.ofText "") ≠ .ok contents := by
  have hempty : Path.ofText "" = { slashes := 0, names := [] } := by cbv
  have hread : tree.read { slashes := 0, names := [] } = .error .isADirectory := by
    rw [read, if_neg (by decide +kernel)]
    rfl
  rw [hempty, hread]
  exact nofun

def loopFile : Tree :=
  Tree.ofTexts [("rom", [0x12, 0x00])] []

theorem readRom_loopFile : readRom loopFile.read "rom" = .ok [0x12, 0x00] := by
  have hpath : Path.ofText "rom" = { slashes := 0, names := ["rom"] } := by cbv
  have hread : loopFile.read { slashes := 0, names := ["rom"] } = .ok [0x12, 0x00] := by
    rw [loopFile, Tree.ofTexts, List.map_cons, hpath]
    decide +kernel
  rw [readRom, if_neg (by decide +kernel), hpath, hread]
  rfl

/-- A tenth of a second of the program, with a seed. -/
def looping (seed : Nat) : Job loopFile.read where
  path := "rom"
  program := [0x12, 0x00]
  readable := readRom_loopFile
  fits := by decide
  seed := seed
  keys := [1, 15]
  isKey := by decide
  seconds := 0.1
  nonneg := by decide +kernel
  isFinite := by decide +kernel
  stepsPerCall := 3
  pos := by decide
  bounded := by decide +kernel

theorem seed_looping (seed : Nat) : (looping seed).seed = seed := rfl

theorem wholePart_looping (seed : Nat) : wholePart ((looping seed).seconds * 60.0) = .ok 6 := by
  have htenth : wholePart (0.1 * 60.0) = .ok 6 := by decide +kernel
  exact htenth

theorem runners_agree_looping :
    (CommandLine.run loopFile.read 0 (CommandLine.commandLine (looping 7) "0.1" "1,F")).ending =
        .ok 0 ∧
      ∃ picture summary registers,
        Showcase.run loopFile.read 0
            { sample := "", file := some "rom", seconds := 0.1, stepsPerCall := 3, seed := some 7,
              keys := ["1", "F"] } =
          .ok { picture := some picture, summary := summary, registers := registers } := by
  let first : Interpreter Float :=
    { machine := .ofSeed 7, stepsPerCall := 1, listener := none, pending := TimeScale.zero }
  have hcreate : create 1 7 none = .ok first := if_neg (by decide)
  have hgoes : (stepped 6 (afterAll [.start 0.0, .setKeys (looping 7).keys,
      .loadProgram (looping 7).bytes] first)).isHalted = false := by
    decide +kernel
  obtain ⟨frames, hframes, hline, htexts, hshow⟩ :=
    runners_agree loopFile.read_empty (looping 7) hcreate 0.0 0
  have hsix : frames.toNat = 6 := by
    rw [wholePart_looping] at hframes
    rw [← Except.ok.inj hframes]
    rfl
  obtain ⟨settings, hparse, hask⟩ := htexts "0.1" "1,F" (by decide +kernel) (by decide +kernel)
    (by decide) (by decide) (by decide) (by decide +kernel)
  obtain ⟨hending, -⟩ := hline _ settings hparse hask
  rw [hsix, hgoes] at hending
  have hrequest := hshow
    { sample := "", file := some "rom", seconds := 0.1, stepsPerCall := 3, seed := some 7,
      keys := ["1", "F"] }
    ⟨rfl, rfl, rfl, rfl, by decide +kernel⟩
  exact ⟨hending, _, _, _, hrequest⟩

/-- A seed with a digit too many is refused, though the machine would go on. -/
theorem long_seed_refused :
    let job := looping (IntegerLiteral.leastLonger 4300)
    let first : Interpreter Float :=
      { machine := .ofSeed job.seed, stepsPerCall := 1, listener := none,
        pending := TimeScale.zero }
    create 1 job.seed none = .ok first ∧ wholePart (job.seconds * 60.0) = .ok 6 ∧
      (stepped 6
        (afterAll [.start 0.0, .setKeys job.keys, .loadProgram job.bytes] first)).isHalted =
          false ∧
      (CommandLine.run loopFile.read 0 (CommandLine.commandLine job "0.1" "1,F")).ending =
        .ok 2 := by
  intro job first
  have hparse : CommandLine.parse (CommandLine.commandLine job "0.1" "1,F") =
      .error (.usage (.notAnInteger .seed (toString job.seed))) := by
    have hlong : ¬ job.seed < IntegerLiteral.leastLonger 4300 := by
      rw [seed_looping]
      exact Nat.lt_irrefl _
    rw [CommandLine.parse_commandLine (by decide) (by decide +kernel) (by decide) (by decide),
      if_neg hlong]
  refine ⟨if_neg (by decide), wholePart_looping _, by decide +kernel, ?_⟩
  rw [CommandLine.run, hparse]
  rfl

end Chip8
