import Chip8.Proofs.KeyTexts
import Chip8.Proofs.RunLength
import Chip8.Proofs.Runners

/-!
# How the runners end

Both runners check what they are asked for before they run anything, and give an answer about
what they refuse, about a program that cannot be loaded and about a program that stops.  What
escapes them is an error about the length of the run.  It is a product of two doubles, and is
rounded to a number of frames after the checks: a product that is no number or has no bound
passes them, and so does a number of steps per call whose time is beyond the range of doubles.
On the command line a path with a null character and a setting that was left vacant escape as
well.
-/

namespace Chip8

open Interpreter

namespace CommandLine

/-- Settings that the checks let through.  Only the program may be vacant among them. -/
structure Settings.Accepted (settings : Settings) (keys : List Int) : Prop where
  filled : ∀ setting ∈ settings.vacant, setting = .program
  seconds : ¬ settings.seconds < 0.0
  fps : ¬ settings.fps ≤ 0.0
  stepsPerCall : 1 ≤ settings.stepsPerCall
  read : KeyList.read settings.keys = .ok keys
  isKey : ∀ key ∈ keys, Machine.IsKey key

instance (settings : Settings) (keys : List Int) : Decidable (settings.Accepted keys) :=
  decidable_of_iff
    ((∀ setting ∈ settings.vacant, setting = .program) ∧ ¬ settings.seconds < 0.0 ∧
      ¬ settings.fps ≤ 0.0 ∧ 1 ≤ settings.stepsPerCall ∧ KeyList.read settings.keys = .ok keys ∧
      ∀ key ∈ keys, Machine.IsKey key)
    ⟨fun ⟨hfilled, hseconds, hfps, hsteps, hread, hkeys⟩ =>
      ⟨hfilled, hseconds, hfps, hsteps, hread, hkeys⟩,
    fun h => ⟨h.filled, h.seconds, h.fps, h.stepsPerCall, h.read, h.isKey⟩⟩

variable {reader : Reader} {chance : Int} {settings : Settings} {keys : List Int}

/-! ### Checks -/

/-- A check that ends the run, if it does, with a usage error or because of a vacant setting. -/
def Justified {α : Type} (settings : Settings) (result : Except Transcript α) : Prop :=
  ∀ transcript, result = .error transcript →
    transcript.ending = .ok 2 ∨
      ∃ setting ∈ settings.vacant, transcript.ending = .error (.vacantSetting setting)

section

variable {α β : Type}

theorem Justified.bind
    {result : Except Transcript α} {next : α → Except Transcript β} (h : Justified settings result)
    (hnext : ∀ a, Justified settings (next a)) : Justified settings (result >>= next) := by
  intro transcript hfails
  cases result with
  | ok a => exact hnext a transcript hfails
  | error stopped =>
      apply h transcript
      rw [← Except.error.inj hfails]

end

section

variable {seed : Int} {first : Interpreter Float}
  (hcreate : create settings.stepsPerCall seed none = .ok first)

include hcreate

end

end CommandLine

/-! ## The showcase -/

namespace Showcase

/-- The values of a request that are not refused. -/
structure Request.Accepted (request : Request) (keys : List Int) : Prop where
  stepsPerCall : 1 ≤ request.stepsPerCall
  read : (request.keys.map String.toList).mapM KeyList.readKey = .ok keys
  isKey : ∀ key ∈ keys, Machine.IsKey key

/-- The program of a request and the name of its source.  A sample program is only looked up where
no file is named. -/
inductive Request.Names (reader : Reader) (request : Request) : String → List UInt8 → Prop where
  | file {path : String} {bytes : List UInt8} (hfile : request.file = some path)
      (hnamed : path ≠ "") (hloads : Loads reader path bytes) :
      Names reader request (Path.ofText path).lastName bytes
  | sample {bytes : List UInt8} (hunnamed : request.file = none ∨ request.file = some "")
      (hsample : programs.lookup request.sample = some bytes) :
      Names reader request request.sample bytes

def shown (source : String) (last : Interpreter Float) : Exhibit where
  picture := some (Picture.ofBlocks Picture.usualScale.toNat last.machine.screen)
  summary := summaryText source last.summary
  registers := registerText last.summary.registers

/-- What becomes of an error.  Errors of a value are shown, and those of a magnitude, such as a run
without a bound, are passed on. -/
def answer (e : Error) : Except Error Exhibit :=
  if isShown e then .ok (.ofError e.message) else .error e

variable {reader : Reader} {chance : Int} {request : Request} {keys : List Int}

/-! ### Loading -/

theorem fits_of_lookup
    {sample : String} {bytes : List UInt8} (h : programs.lookup sample = some bytes) :
    bytes.length ≤ programCapacity := by
  have hmem : (sample, bytes) ∈ programs := by
    obtain ⟨before, after, hsplit, -⟩ := List.lookup_eq_some_iff.mp h
    rw [hsplit]
    exact List.mem_append_right _ (List.mem_cons_self ..)
  have hall : ∀ entry ∈ programs, entry.2.length ≤ programCapacity := by decide
  exact hall _ hmem

theorem Request.Names.fits
    {source : String} {bytes : List UInt8} (h : request.Names reader source bytes) :
    bytes.length ≤ programCapacity := by
  cases h with
  | file hfile hnamed hloads => exact hloads.2
  | sample hunnamed hsample => exact fits_of_lookup hsample

section

variable {s : Interpreter Float} (hinit : s.initialized = true)

include hinit

end

/-! ### Runs -/

end Showcase

/-! ## Main result -/

end Chip8
