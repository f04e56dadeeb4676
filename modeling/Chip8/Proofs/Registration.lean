import Chip8.Proofs.Causes
import Chip8.Proofs.Decoding
import Chip8.Proofs.Effect

/-!
# Registration

A run of a registry is a sequence of requests, each of which may be refused.  A handler that is
registered stays under its key for good, so what is done under a key is what the first request that
succeeded in registering it asked for.  While a registry is frozen it does not change at all, and it
can be opened again only on request.

The standard registry is what becomes of an empty one when the operations are registered one by one
and the registry is frozen then.  A run of the standard registry is therefore the end of a run of an
empty one, and every handler in it comes from some request.  The main result is
`registrations_last`.
-/

namespace Chip8.Registry

/-! ## Requests -/

/-- What is asked of a registry, with its arguments.  Handlers act on the machine that is given, and
have no access to the registry. -/
inductive Request where
  | register (key : String) (handler : Handler)
  | freeze
  | unfreeze
  | listKeys
  | execute (key : String) (operands : Operands) (m : Machine)

/-- The registry after a request, which may have been refused. -/
def Request.after (registry : Registry) : Request → Registry
  | register key handler =>
      match registry.register key handler with
      | .ok grown => grown
      | .error _ => registry
  | freeze => registry.freeze
  | unfreeze => registry.unfreeze
  | listKeys | execute _ _ _ => registry

def afterAll (requests : List Request) (registry : Registry) : Registry :=
  requests.foldl Request.after registry

def Accepts (registry : Registry) (key : String) (handler : Handler) : Prop :=
  ∃ grown, registry.register key handler = .ok grown

/-- A handler was registered under a key by the first request of a run that succeeded in
registering the key. -/
def FirstRegistered
    (start : Registry) (run : List Request) (key : String) (handler : Handler) : Prop :=
  ∃ before later, run = before ++ .register key handler :: later ∧
    (afterAll before start).Accepts key handler ∧
    ∀ earlier other between, before = earlier ++ .register key other :: between →
      ¬ (afterAll earlier start).Accepts key other

theorem afterAll_append (before later : List Request) (registry : Registry) :
    afterAll (before ++ later) registry = afterAll later (afterAll before registry) :=
  List.foldl_append

variable {registry : Registry} {key : String} {handler : Handler}

/-! ## Lookups -/

theorem mem_keys_iff : key ∈ registry.keys ↔ ∃ handler, registry.handler? key = some handler := by
  rw [handler?, ← Option.isSome_iff_exists, List.lookup_isSome_iff, keys, List.mem_map]
  simp only [beq_iff_eq, eq_comm (a := key)]

theorem handler?_eq_none_iff : registry.handler? key = none ↔ key ∉ registry.keys := by
  rw [mem_keys_iff, Option.eq_none_iff_forall_ne_some, not_exists]

/-- What is found in a table is found in every longer one. -/
theorem handler?_of_prefix
    {grown : Registry} (hfront : registry.entries <+: grown.entries)
    (hhandler : registry.handler? key = some handler) : grown.handler? key = some handler := by
  obtain ⟨added, hadded⟩ := hfront
  rw [handler?] at hhandler
  rw [handler?, ← hadded, List.lookup_append, hhandler, Option.some_or]

/-! ## One request -/

/-- The registry with a handler behind the others. -/
def adding (registry : Registry) (key : String) (handler : Handler) : Registry :=
  { registry with entries := registry.entries ++ [(key, handler)] }

theorem mem_keys_adding {other : String} :
    other ∈ (registry.adding key handler).keys ↔ other = key ∨ other ∈ registry.keys := by
  simp only [keys, adding, List.map_append, List.mem_append, List.map_cons, List.map_nil,
    List.mem_singleton, or_comm]

theorem handler?_adding_self (hnew : key ∉ registry.keys) :
    (registry.adding key handler).handler? key = some handler := by
  have hnone := handler?_eq_none_iff.mpr hnew
  rw [handler?] at hnone
  rw [handler?, adding, List.lookup_append, hnone, Option.none_or]
  exact List.lookup_cons_self

theorem handler?_adding_of_ne {other : String} (hne : other ≠ key) :
    (registry.adding key handler).handler? other = registry.handler? other := by
  have hother : (other == key) = false := beq_eq_false_iff_ne.mpr hne
  rw [handler?, handler?, adding, List.lookup_append, List.lookup_cons, hother, List.lookup_nil,
    Option.or_none]

/-- A handler is refused by a frozen registry, or else if its key is there already, or else added. -/
theorem register_cases (registry : Registry) (key : String) (handler : Handler) :
    (registry.frozen = true ∧ registry.register key handler = .error .registryFrozen) ∨
      (registry.frozen = false ∧ key ∈ registry.keys ∧
        registry.register key handler = .error (.alreadyRegistered key)) ∨
      (registry.frozen = false ∧ key ∉ registry.keys ∧
        registry.register key handler = .ok (registry.adding key handler)) := by
  unfold register
  cases hfrozen : registry.frozen with
  | true => exact Or.inl ⟨rfl, rfl⟩
  | false =>
      by_cases hmem : key ∈ registry.keys
      · exact Or.inr (Or.inl ⟨rfl, hmem, if_pos (List.contains_iff_mem.mpr hmem)⟩)
      · refine Or.inr (Or.inr ⟨rfl, hmem, ?_⟩)
        rw [if_neg Bool.false_ne_true, if_neg (mt List.contains_iff_mem.mp hmem), adding, hfrozen]

theorem accepts_iff :
    registry.Accepts key handler ↔ registry.frozen = false ∧ key ∉ registry.keys := by
  unfold Accepts
  rcases register_cases registry key handler with
    ⟨hfrozen, hresult⟩ | ⟨hopen, hmem, hresult⟩ | ⟨hopen, hnew, hresult⟩
  · simp [hresult, hfrozen]
  · simp [hresult, hmem]
  · simp [hresult, hopen, hnew]

theorem register_of_accepts (haccepts : registry.Accepts key handler) :
    registry.register key handler = .ok (registry.adding key handler) := by
  obtain ⟨hopen, hnew⟩ := accepts_iff.mp haccepts
  rcases register_cases registry key handler with
    ⟨hfrozen, -⟩ | ⟨-, hmem, -⟩ | ⟨-, -, hresult⟩
  · exact absurd hfrozen (by simp [hopen])
  · exact absurd hmem hnew
  · exact hresult

theorem after_register_of_accepts (haccepts : registry.Accepts key handler) :
    (Request.register key handler).after registry = registry.adding key handler := by
  rw [Request.after, register_of_accepts haccepts]

theorem after_register_of_refused (hrefused : ¬ registry.Accepts key handler) :
    (Request.register key handler).after registry = registry := by
  rw [Request.after]
  cases hresult : registry.register key handler with
  | ok grown => exact absurd ⟨grown, hresult⟩ hrefused
  | error e => rfl

/-- No request takes anything out of a registry, or puts anything before what is there. -/
theorem prefix_after (registry : Registry) (request : Request) :
    registry.entries <+: (request.after registry).entries := by
  cases request with
  | register key handler =>
      by_cases haccepts : registry.Accepts key handler
      · rw [after_register_of_accepts haccepts]
        exact List.prefix_append _ _
      · simp only [after_register_of_refused haccepts, List.prefix_refl]
  | _ => exact List.prefix_refl _

/-- A handler that is found after a request was there before or is the one that was asked to be
registered. -/
theorem handler?_after {request : Request} :
    (request.after registry).handler? key = some handler ↔
      registry.handler? key = some handler ∨
        (request = .register key handler ∧ registry.Accepts key handler) := by
  constructor
  · intro hafter
    cases request with
    | register other asked =>
        by_cases haccepts : registry.Accepts other asked
        · rw [after_register_of_accepts haccepts] at hafter
          by_cases hkey : key = other
          · subst hkey
            rw [handler?_adding_self (accepts_iff.mp haccepts).2] at hafter
            cases hafter
            exact Or.inr ⟨rfl, haccepts⟩
          · rw [handler?_adding_of_ne hkey] at hafter
            exact Or.inl hafter
        · rw [after_register_of_refused haccepts] at hafter
          exact Or.inl hafter
    | _ => exact Or.inl hafter
  · rintro (hbefore | ⟨rfl, haccepts⟩)
    · exact handler?_of_prefix (prefix_after registry request) hbefore
    · rw [after_register_of_accepts haccepts]
      exact handler?_adding_self (accepts_iff.mp haccepts).2

/-! ## Runs -/

theorem prefix_afterAll (requests : List Request) (registry : Registry) :
    registry.entries <+: (afterAll requests registry).entries := by
  induction requests generalizing registry with
  | nil => exact List.prefix_refl _
  | cons request requests ih => exact (prefix_after registry request).trans (ih _)

theorem mem_keys_afterAll (requests : List Request) (hmem : key ∈ registry.keys) :
    key ∈ (afterAll requests registry).keys := by
  obtain ⟨handler, hhandler⟩ := mem_keys_iff.mp hmem
  exact mem_keys_iff.mpr ⟨handler, handler?_of_prefix (prefix_afterAll requests registry) hhandler⟩

theorem afterAll_of_frozen
    (hfrozen : registry.frozen = true) {requests : List Request}
    (hclosed : Request.unfreeze ∉ requests) : afterAll requests registry = registry := by
  induction requests with
  | nil => rfl
  | cons request requests ih =>
      obtain ⟨hhead, htail⟩ := not_or.mp (mt List.mem_cons.mpr hclosed)
      have hsame : request.after registry = registry := by
        cases request with
        | register key handler =>
            apply after_register_of_refused
            rw [accepts_iff, hfrozen]
            exact fun h => Bool.noConfusion h.1
        | freeze => rw [Request.after, freeze, ← hfrozen]
        | unfreeze => exact absurd rfl hhead
        | _ => rfl
      rw [afterAll, List.foldl_cons, hsame]
      exact ih htail

/-- A run cannot be the first to register a key that is there already. -/
theorem FirstRegistered.notMem
    {start : Registry} {run : List Request} (h : start.FirstRegistered run key handler) :
    key ∉ start.keys := by
  obtain ⟨before, later, -, haccepts, -⟩ := h
  exact fun hmem => (accepts_iff.mp haccepts).2 (mem_keys_afterAll before hmem)

theorem firstRegistered_nil {start : Registry} : ¬ start.FirstRegistered [] key handler := by
  rintro ⟨before, later, hrun, -⟩
  simp at hrun

/-- A key is first registered by the first request, or later if the first request does not register
it. -/
theorem firstRegistered_cons {start : Registry} {request : Request} {run : List Request} :
    start.FirstRegistered (request :: run) key handler ↔
      (request = .register key handler ∧ start.Accepts key handler) ∨
        ((∀ other, request = .register key other → ¬ start.Accepts key other) ∧
          (request.after start).FirstRegistered run key handler) := by
  constructor
  · rintro ⟨before, later, hrun, haccepts, hfirst⟩
    cases before with
    | nil =>
        obtain ⟨rfl, rfl⟩ := List.cons.inj hrun
        exact Or.inl ⟨rfl, haccepts⟩
    | cons head before =>
        obtain ⟨rfl, rfl⟩ := List.cons.inj hrun
        refine Or.inr ⟨fun other hother => ?_, before, later, rfl, haccepts, ?_⟩
        · exact hfirst [] other before (by rw [hother]; rfl)
        · intro earlier other between hbefore
          exact hfirst (request :: earlier) other between (by rw [hbefore]; rfl)
  · rintro (⟨rfl, haccepts⟩ | ⟨hhead, before, later, rfl, haccepts, hfirst⟩)
    · refine ⟨[], run, rfl, haccepts, fun earlier other between hnil => ?_⟩
      simp at hnil
    · refine ⟨request :: before, later, rfl, haccepts, fun earlier other between hbefore => ?_⟩
      cases earlier with
      | nil => exact hhead other (List.cons.inj hbefore).1
      | cons first earlier =>
          obtain ⟨rfl, rfl⟩ := List.cons.inj hbefore
          exact hfirst earlier other between rfl

/-- After a run, a key has the handler that it had at the start or was first registered with. -/
theorem handler?_afterAll {start : Registry} {run : List Request} :
    (afterAll run start).handler? key = some handler ↔
      start.handler? key = some handler ∨ start.FirstRegistered run key handler := by
  induction run generalizing start with
  | nil => simp [afterAll, firstRegistered_nil]
  | cons request run ih =>
      rw [afterAll, List.foldl_cons, ← afterAll, ih, handler?_after, firstRegistered_cons, or_assoc]
      refine or_congr_right (or_congr_right ⟨fun hrest => ⟨?_, hrest⟩, And.right⟩)
      rintro other rfl haccepts
      apply hrest.notMem
      rw [after_register_of_accepts haccepts]
      exact mem_keys_adding.mpr (Or.inl rfl)

/-! ## The standard registry -/

def empty : Registry where
  entries := []
  frozen := false

/-- The requests that make the standard registry out of an empty one. -/
def construction : List Request :=
  (Operation.all.map fun operation => .register operation.key operation.perform) ++ [.freeze]

/-- New handlers are put behind the others, in their order. -/
theorem afterAll_map_register
    (hopen : registry.frozen = false) {added : List (String × Handler)}
    (hnodup : (registry.keys ++ added.map Prod.fst).Nodup) :
    afterAll (added.map fun entry => .register entry.1 entry.2) registry =
      { registry with entries := registry.entries ++ added } := by
  induction added generalizing registry with
  | nil => simp [afterAll]
  | cons entry added ih =>
      have hnew : entry.1 ∉ registry.keys := by
        intro hmem
        exact (List.nodup_append.mp hnodup).2.2 _ hmem _ List.mem_cons_self rfl
      have hstill : (registry.adding entry.1 entry.2).frozen = false := hopen
      have hrest : ((registry.adding entry.1 entry.2).keys ++ added.map Prod.fst).Nodup := by
        simpa [keys, adding] using hnodup
      rw [List.map_cons, afterAll, List.foldl_cons, ← afterAll,
        after_register_of_accepts (accepts_iff.mpr ⟨hopen, hnew⟩), ih hstill hrest]
      simp [adding]

/-- The operations have different keys, so none of them is refused. -/
theorem afterAll_construction : afterAll construction empty = standard := by
  have hopen : empty.frozen = false := rfl
  have hnodup : (empty.keys ++ standard.entries.map Prod.fst).Nodup := by
    simpa [empty, keys, standard, Function.comp_def] using Operation.nodup_keys
  have hregistered := afterAll_map_register hopen hnodup
  simp only [standard, List.map_map, Function.comp_def] at hregistered
  rw [construction, afterAll_append, hregistered]
  rfl

/-- The handlers of a run of the standard registry are those that were first registered. -/
theorem handler?_run (requests : List Request) (key : String) (handler : Handler) :
    (afterAll requests standard).handler? key = some handler ↔
      empty.FirstRegistered (construction ++ requests) key handler := by
  rw [← afterAll_construction, ← afterAll_append, handler?_afterAll]
  refine or_iff_right ?_
  rintro ⟨⟩

theorem handler?_key (requests : List Request) (operation : Operation) :
    (afterAll requests standard).handler? operation.key = some operation.perform :=
  handler?_of_prefix (prefix_afterAll requests standard) (handler?_standard operation)

/-! ## Main result -/

/-- What registering a handler does, and when it is refused. -/
structure Registers (registry : Registry) (key : String) (handler : Handler) : Prop where
  frozen_iff :
    registry.register key handler = .error .registryFrozen ↔ registry.frozen = true
  taken_iff :
    registry.register key handler = .error (.alreadyRegistered key) ↔
      registry.frozen = false ∧ key ∈ registry.keys
  refused : ∀ e, registry.register key handler = .error e →
    (Request.register key handler).after registry = registry
  /-- Otherwise the key is added with its handler, and nothing else changes. -/
  added : registry.frozen = false → key ∉ registry.keys →
    ∃ grown, registry.register key handler = .ok grown ∧
      (Request.register key handler).after registry = grown ∧
      grown.frozen = false ∧ grown.handler? key = some handler ∧
      (∀ other, other ∈ grown.keys ↔ other = key ∨ other ∈ registry.keys) ∧
      ∀ other, other ≠ key → grown.handler? other = registry.handler? other

theorem registers (registry : Registry) (key : String) (handler : Handler) :
    Registers registry key handler := by
  constructor
  · rcases register_cases registry key handler with
      ⟨hfrozen, hresult⟩ | ⟨hopen, -, hresult⟩ | ⟨hopen, -, hresult⟩
    · simp [hresult, hfrozen]
    · simp [hresult, hopen]
    · simp [hresult, hopen]
  · rcases register_cases registry key handler with
      ⟨hfrozen, hresult⟩ | ⟨hopen, hmem, hresult⟩ | ⟨-, hnew, hresult⟩
    · simp [hresult, hfrozen]
    · simp [hresult, hopen, hmem]
    · simp [hresult, hnew]
  · intro e herror
    apply after_register_of_refused
    rintro ⟨grown, hgrown⟩
    rw [herror] at hgrown
    cases hgrown
  · intro hopen hnew
    have haccepts : registry.Accepts key handler := accepts_iff.mpr ⟨hopen, hnew⟩
    exact ⟨registry.adding key handler, register_of_accepts haccepts,
      after_register_of_accepts haccepts, hopen, handler?_adding_self hnew,
      fun other => mem_keys_adding, fun other hne => handler?_adding_of_ne hne⟩

/-- What carrying out the operation under a key does.  A handler may fail for any cause of its own,
also because it looks for a key somewhere else. -/
structure Executes
    (registry : Registry) (key : String) (operands : Operands) (m : Machine) : Prop where
  unknown : key ∉ registry.keys →
    registry.execute key operands m = .error (.unknownOperation key) m
  known : ∀ handler, registry.handler? key = some handler →
    registry.execute key operands m = handler operands m
  unknown_iff : ∀ m', registry.execute key operands m = .error (.unknownOperation key) m' ↔
    (key ∉ registry.keys ∧ m' = m) ∨
      ∃ handler, registry.handler? key = some handler ∧
        handler operands m = .error (.unknownOperation key) m'
  unchanged : (Request.execute key operands m).after registry = registry

theorem execute_of_notMem (hnew : key ∉ registry.keys) (operands : Operands) (m : Machine) :
    registry.execute key operands m = .error (.unknownOperation key) m := by
  simp only [execute, handler?_eq_none_iff.mpr hnew]

theorem executes (registry : Registry) (key : String) (operands : Operands) (m : Machine) :
    Executes registry key operands m := by
  refine ⟨fun hnew => execute_of_notMem hnew operands m,
    fun handler hhandler => execute_of_handler? hhandler operands m, fun m' => ?_, rfl⟩
  cases hhandler : registry.handler? key with
  | none =>
      have hnew := handler?_eq_none_iff.mp hhandler
      rw [execute_of_notMem hnew]
      simp [hnew, eq_comm]
  | some handler =>
      have hmem : key ∈ registry.keys := mem_keys_iff.mpr ⟨handler, hhandler⟩
      rw [execute_of_handler? hhandler]
      simp [hmem]

/-- What a run of requests to the standard registry has made of it, and keeps in all that is
requested later. -/
structure Lasts (before later : List Request) : Prop where
  /-- The keys are those that some request succeeded in registering. -/
  mem_keys_iff : ∀ key, key ∈ (afterAll before standard).keys ↔
    ∃ handler, empty.FirstRegistered (construction ++ before) key handler
  /-- They stay for good, with the handlers that they were first registered with. -/
  stays : ∀ key handler, empty.FirstRegistered (construction ++ before) key handler →
    key ∈ (afterAll (before ++ later) standard).keys ∧
      ∀ operands m,
        (afterAll (before ++ later) standard).execute key operands m = handler operands m
  /-- Every operation is there, and no other handler takes its place. -/
  operations : ∀ operation : Operation, operation.key ∈ (afterAll before standard).keys ∧
    ∀ operands m,
      (afterAll before standard).execute operation.key operands m = operation.perform operands m
  unchanged : (afterAll before standard).frozen = true → Request.unfreeze ∉ later →
    afterAll (before ++ later) standard = afterAll before standard

theorem lasts (before later : List Request) : Lasts before later := by
  constructor
  · intro key
    rw [Registry.mem_keys_iff]
    exact exists_congr fun handler => handler?_run before key handler
  · intro key handler hfirst
    have hhandler : (afterAll (before ++ later) standard).handler? key = some handler := by
      rw [afterAll_append]
      have hbefore := (handler?_run before key handler).mpr hfirst
      exact handler?_of_prefix (prefix_afterAll later _) hbefore
    exact ⟨Registry.mem_keys_iff.mpr ⟨handler, hhandler⟩, execute_of_handler? hhandler⟩
  · intro operation
    have hhandler := handler?_key before operation
    exact ⟨Registry.mem_keys_iff.mpr ⟨_, hhandler⟩, execute_of_handler? hhandler⟩
  · intro hfrozen hclosed
    rw [afterAll_append]
    exact afterAll_of_frozen hfrozen hclosed

/-- A registry only grows, by requests that register new keys while it is open, and does under
every key what it was first asked to do.  An unknown key is refused, and is never the failure of an
operation. -/
theorem registrations_last (before later : List Request) :
    afterAll construction empty = standard ∧ Lasts before later ∧
      (∀ registry key handler, Registers registry key handler) ∧
      (∀ registry key operands m, Executes registry key operands m) ∧
      ∀ (operation : Operation) (operands : Operands) (m m' : Machine) (name : String),
        (afterAll before standard).execute operation.key operands m ≠
          .error (.unknownOperation name) m' := by
  refine ⟨afterAll_construction, lasts before later, registers, executes, ?_⟩
  intro operation operands m m' name
  rw [execute_of_handler? (handler?_key before operation)]
  exact operation.perform_ne_unknown operands m m' name

/-- An opened registry takes a handler under a new key and does not exchange it for another, and
once it is frozen again it refuses even a key that it has. -/
theorem registrations_last_reopened :
    let before := [.unfreeze, .register "OP_NEW" fun _ => Machine.advance 2]
    let later := [.register "OP_NEW" fun _ => pure (), .freeze]
    let registry := afterAll (before ++ later) standard
    (∀ operands m, registry.execute "OP_NEW" operands m = Machine.advance 2 m) ∧
      (∀ handler, registry.register "OP_CLS" handler = .error .registryFrozen) ∧
      ∀ operands m,
        registry.execute "OP_OTHER" operands m = .error (.unknownOperation "OP_OTHER") m := by
  intro before later registry
  obtain ⟨-, hlasts, hregisters, hexecutes, -⟩ := registrations_last before later
  have hfirst : empty.FirstRegistered (construction ++ before) "OP_NEW" fun _ =>
      Machine.advance 2 :=
    (handler?_run before _ _).mp rfl
  refine ⟨(hlasts.stays _ _ hfirst).2, fun handler => ?_, fun operands m => ?_⟩
  · exact (hregisters registry "OP_CLS" handler).frozen_iff.mpr rfl
  · exact (hexecutes registry "OP_OTHER" operands m).unknown (by decide)

end Chip8.Registry
