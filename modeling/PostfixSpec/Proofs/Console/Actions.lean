import Mathlib.Data.List.Basic
import Mathlib.Data.List.Induction
import PostfixSpec.Proofs.Console.Quiet

/-!
# The console over a whole program

A program configures and resets its console and sets its level in any order, while its host adds
handlers of its own. Whatever the order, the handlers are those of the host, with the console handler
somewhere among them while one is installed, and that one is at the root level. Each action keeps this
and changes no more than what it is for. So after any number of them the list of actions says which
handlers there are and what they write.
-/

namespace PostfixSpec.Console

/-- What a program or its host does with the console. -/
inductive Action where
  | configure (debug verbose : Bool)
  | reset
  | setLevel (level : Level)
  | addHost (id : Nat)
  deriving DecidableEq

namespace Action

/-- The handler that the host adds by an action. -/
def host? : Action → Option Nat
  | addHost id => some id
  | _ => none

/-- The level that an action sets. -/
def level? : Action → Option Level
  | configure debug verbose => some (levelOf debug verbose)
  | setLevel level => some level
  | _ => none

end Action

def perform (c : Console) : Action → Console
  | .configure debug verbose => c.configure debug verbose
  | .reset => c.reset
  | .setLevel level => c.setLevel level
  | .addHost id => c.addHost id

def performAll (c : Console) (actions : List Action) : Console := actions.foldl perform c

/-- Whether the console was configured and not reset since. -/
def Configured (actions : List Action) : Prop :=
  ∃ before debug verbose after, actions = before ++ .configure debug verbose :: after ∧
    .reset ∉ after

/-- Whether the handlers are those of the host and, if one is installed, a single console handler
among them, whose level is `own`. -/
def Tidy (c : Console) (own : Level) : Prop :=
  ∃ before after : List Nat, c.handlers
    = before.map .host ++ c.installed.toList.map (.console · own) ++ after.map .host

variable {c : Console} {own : Level}

/-! ### What a tidy console shows -/

theorem Tidy.consoleLevels_eq (h : c.Tidy own) :
    c.consoleLevels = c.installed.toList.map fun _ => own := by
  obtain ⟨before, after, hhandlers⟩ := h
  have hhosts (ids : List Nat) : ids.filterMap (fun _ => (none : Option Level)) = [] :=
    List.filterMap_eq_nil_iff.mpr fun _ _ => rfl
  rw [consoleLevels, hhandlers]
  simp [List.filterMap_map, hhosts]

theorem handlers_eq_of_consoleLevels (h : c.consoleLevels = []) :
    c.handlers = c.hosts.map .host := by
  rw [consoleLevels, List.filterMap_eq_nil_iff] at h
  rw [hosts, List.map_filterMap]
  symm
  refine (List.filterMap_congr fun handler hmem => ?_).trans List.filterMap_some
  cases handler with
  | host id => rfl
  | console serial level => exact absurd (h _ hmem) (Option.some_ne_none level)

theorem tidy_of_consoleLevels (hinstalled : c.installed = none) (h : c.consoleLevels = [])
    (own : Level) : c.Tidy own := by
  refine ⟨c.hosts, [], ?_⟩
  rw [hinstalled, handlers_eq_of_consoleLevels h]
  simp

theorem concat_map_handle_host (level : Int) (message : String) (ids : List Nat) :
    Output.concat ((ids.map Handler.host).map (handle level message)) = .empty := by
  induction ids with
  | nil => rfl
  | cons id ids ih => exact (Output.empty_append _).trans ih

/-- A record passes the one console handler exactly if it passes the root level. -/
theorem Tidy.emit_eq (h : c.Tidy c.rootLevel) {serial : Nat} (hinstalled : c.installed = some serial)
    (level : Int) (message : String) :
    c.emit level message
      = if c.rootLevel.number ≤ level then .line (formatRecord level message) else .empty := by
  obtain ⟨before, after, hhandlers⟩ := h
  rw [hinstalled] at hhandlers
  have hsome : ¬ c.handlers.isEmpty := by simp [hhandlers]
  rw [emit, if_neg hsome, hhandlers]
  by_cases hlevel : c.rootLevel.number ≤ level
  · rw [if_neg (Int.not_lt.mpr hlevel), if_pos hlevel, List.map_append, List.map_append,
      Output.concat_append, Output.concat_append, concat_map_handle_host, concat_map_handle_host,
      Output.append_empty, Output.empty_append]
    show Output.concat [handle level message (.console serial c.rootLevel)] = _
    rw [Output.concat_singleton, handle, if_pos hlevel]
  · rw [if_pos (Int.not_le.mp hlevel), if_neg hlevel]

/-! ### One action -/

theorem Tidy.setLevel (h : c.Tidy own) (level : Level) : (c.setLevel level).Tidy level := by
  obtain ⟨before, after, hhandlers⟩ := h
  refine ⟨before, after, ?_⟩
  cases hinstalled : c.installed <;>
    simp [Console.setLevel, hhandlers, hinstalled, Function.comp_def]

theorem Tidy.reset (h : c.Tidy own) : c.reset.Tidy own := by
  cases hinstalled : c.installed with
  | none => simpa [Console.reset, hinstalled] using h
  | some serial =>
      obtain ⟨before, after, hhandlers⟩ := h
      refine ⟨before, after, ?_⟩
      simp [Console.reset, removeHandler, hhandlers, hinstalled, List.filter_map, Function.comp_def,
        List.filter_true]

theorem Tidy.addHost (h : c.Tidy own) (id : Nat) : (c.addHost id).Tidy own := by
  obtain ⟨before, after, hhandlers⟩ := h
  rw [Console.addHost, addHandler]
  split
  · exact ⟨before, after, hhandlers⟩
  · exact ⟨before, after ++ [id], by simp [hhandlers]⟩

theorem installed_reset (c : Console) : c.reset.installed = none := by
  cases hinstalled : c.installed <;> simp [Console.reset, hinstalled]

theorem Tidy.configure (h : c.Tidy own) (debug verbose : Bool) :
    (c.configure debug verbose).Tidy (levelOf debug verbose) := by
  obtain ⟨before, after, hhandlers⟩ := h.reset
  rw [installed_reset] at hhandlers
  -- The new handler is added at the default level and gets its own together with the root.
  have hadded : ({ c.reset.addHandler (.console c.reset.nextSerial .warning) with
      installed := some c.reset.nextSerial, nextSerial := c.reset.nextSerial + 1 } : Console).Tidy
      .warning := by
    refine ⟨before ++ after, [], ?_⟩
    simp [addHandler, hhandlers, Handler.sameAs]
  exact hadded.setLevel (levelOf debug verbose)

@[simp] theorem rootLevel_reset (c : Console) : c.reset.rootLevel = c.rootLevel := by
  cases hinstalled : c.installed <;> simp [Console.reset, removeHandler, hinstalled]

@[simp] theorem rootLevel_addHost (c : Console) (id : Nat) :
    (c.addHost id).rootLevel = c.rootLevel := by
  rw [Console.addHost, addHandler]
  split <;> rfl

theorem rootLevel_perform (c : Console) (a : Action) :
    (c.perform a).rootLevel = a.level?.getD c.rootLevel := by
  cases a with
  | configure debug verbose => rfl
  | reset => exact rootLevel_reset c
  | setLevel level => rfl
  | addHost id => exact rootLevel_addHost c id

theorem Tidy.perform (h : c.Tidy c.rootLevel) (a : Action) :
    (c.perform a).Tidy (c.perform a).rootLevel := by
  cases a with
  | configure debug verbose => exact h.configure debug verbose
  | reset => simpa only [Console.perform, rootLevel_reset] using h.reset
  | setLevel level => exact h.setLevel level
  | addHost id => simpa only [Console.perform, rootLevel_addHost] using h.addHost id

theorem installed_perform (c : Console) (a : Action) :
    (c.perform a).installed.isSome
      ↔ (∃ debug verbose, a = .configure debug verbose) ∨ a ≠ .reset ∧ c.installed.isSome := by
  cases a with
  | configure debug verbose => exact iff_of_true rfl (.inl ⟨debug, verbose, rfl⟩)
  | reset => simp [Console.perform, installed_reset]
  | setLevel level => simp [Console.perform, Console.setLevel]
  | addHost id =>
      have hsame : (c.addHost id).installed = c.installed := by
        rw [Console.addHost, addHandler]
        split <;> rfl
      simp [Console.perform, hsame]

@[simp] theorem hosts_setLevel (c : Console) (level : Level) :
    (c.setLevel level).hosts = c.hosts := by
  rw [hosts, hosts, Console.setLevel]
  cases c.installed with
  | none => rfl
  | some serial =>
      rw [List.filterMap_map]
      refine List.filterMap_congr fun handler _ => ?_
      cases handler <;> rfl

@[simp] theorem hosts_reset (c : Console) : c.reset.hosts = c.hosts := by
  rw [Console.reset]
  cases c.installed with
  | none => rfl
  | some serial =>
      rw [hosts, hosts]
      refine List.filterMap_filter.trans ?_
      refine List.filterMap_congr fun handler _ => ?_
      cases handler with
      | host id => rfl
      | console s level => exact ite_self none

@[simp] theorem hosts_addConsole (c : Console) (serial : Nat) (level : Level) :
    (c.addHandler (.console serial level)).hosts = c.hosts := by
  rw [addHandler]
  split
  · rfl
  · rw [hosts, hosts, List.filterMap_append]
    exact List.append_nil _

theorem any_sameAs_host (c : Console) (id : Nat) :
    c.handlers.any (Handler.host id).sameAs ↔ id ∈ c.hosts := by
  rw [hosts]
  induction c.handlers with
  | nil => simp
  | cons handler handlers ih =>
      rw [List.any_cons, Bool.or_eq_true, ih]
      cases handler with
      | host other => simp [Handler.sameAs]
      | console serial level => simp [Handler.sameAs]

/-- Only the host changes which handlers of its own there are, and it adds a handler only once. -/
theorem hosts_perform (c : Console) (a : Action) :
    (c.perform a).hosts = c.hosts ++ a.host?.toList.filter (· ∉ c.hosts) := by
  cases a with
  | configure debug verbose =>
      show (Console.setLevel _ _).hosts = c.hosts ++ []
      rw [hosts_setLevel, List.append_nil]
      exact (hosts_addConsole _ _ _).trans (hosts_reset c)
  | reset => exact (hosts_reset c).trans (List.append_nil _).symm
  | setLevel level => exact (hosts_setLevel c level).trans (List.append_nil _).symm
  | addHost id =>
      show (c.addHost id).hosts = c.hosts ++ [id].filter (· ∉ c.hosts)
      rw [Console.addHost, addHandler]
      by_cases hknown : id ∈ c.hosts
      · rw [if_pos ((any_sameAs_host c id).mpr hknown)]
        simp [hknown]
      · rw [if_neg (mt (any_sameAs_host c id).mp hknown), List.filter_singleton,
          decide_eq_true hknown, hosts, List.filterMap_append]
        rfl

/-! ### Any number of actions

What one action does to the console depends on what all of those before it made of it. So the list of
actions is taken apart from its end.
-/

theorem performAll_append_singleton (c : Console) (actions : List Action) (a : Action) :
    c.performAll (actions ++ [a]) = (c.performAll actions).perform a := by
  rw [performAll, performAll, List.foldl_append]
  rfl

theorem configured_append_singleton {actions : List Action} {a : Action} :
    Configured (actions ++ [a])
      ↔ (∃ debug verbose, a = .configure debug verbose) ∨ a ≠ .reset ∧ Configured actions := by
  constructor
  · rintro ⟨before, debug, verbose, after, hactions, hafter⟩
    -- Either the last action is the one that configured, or it came after that one and was no reset.
    obtain rfl | ⟨after, last, rfl⟩ := List.eq_nil_or_concat' after
    · exact .inl ⟨debug, verbose, (List.append_singleton_inj.mp hactions).2⟩
    · rw [← List.cons_append, ← List.append_assoc] at hactions
      obtain ⟨rfl, rfl⟩ := List.append_singleton_inj.mp hactions
      rw [List.mem_append, not_or, List.mem_singleton] at hafter
      exact .inr ⟨Ne.symm hafter.2, before, debug, verbose, after, rfl, hafter.1⟩
  · rintro (⟨debug, verbose, rfl⟩ | ⟨hreset, before, debug, verbose, after, rfl, hafter⟩)
    · exact ⟨actions, debug, verbose, [], rfl, List.not_mem_nil⟩
    · refine ⟨before, debug, verbose, after ++ [a], by simp, ?_⟩
      simp [hafter, hreset.symm]

variable {start : Console}

theorem tidy_performAll (h : start.Tidy start.rootLevel) (actions : List Action) :
    (start.performAll actions).Tidy (start.performAll actions).rootLevel := by
  induction actions generalizing start with
  | nil => exact h
  | cons a actions ih => exact ih (h.perform a)

theorem installed_performAll (hinstalled : start.installed = none) (actions : List Action) :
    (start.performAll actions).installed.isSome ↔ Configured actions := by
  induction actions using List.reverseRecOn with
  | nil =>
      refine iff_of_false (by simp [performAll, hinstalled]) ?_
      rintro ⟨before, debug, verbose, after, hactions, -⟩
      simp at hactions
  | append_singleton actions a ih =>
      rw [performAll_append_singleton, installed_perform, ih, configured_append_singleton]

theorem rootLevel_performAll (start : Console) (actions : List Action) :
    (start.performAll actions).rootLevel
      = (actions.filterMap Action.level?).getLast?.getD start.rootLevel := by
  induction actions using List.reverseRecOn with
  | nil => rfl
  | append_singleton actions a ih =>
      rw [performAll_append_singleton, rootLevel_perform, ih, List.filterMap_append]
      cases hlevel : a.level? <;> simp [hlevel]

theorem hosts_performAll (start : Console) (actions : List Action) :
    (start.performAll actions).hosts
      = start.hosts ++ ((actions.filterMap Action.host?).filter (· ∉ start.hosts)).eraseDups := by
  induction actions using List.reverseRecOn with
  | nil => simp [performAll]
  | append_singleton actions a ih =>
      rw [performAll_append_singleton, hosts_perform, ih, List.filterMap_append, List.filter_append,
        List.eraseDups_append, List.append_assoc]
      cases hhost : a.host? with
      | none => simp [hhost]
      | some id =>
          have hlast : [a].filterMap Action.host? = [id] := by simp [hhost]
          rw [hlast]
          generalize actions.filterMap Action.host? = added
          by_cases hknown : id ∈ start.hosts
          · simp [hknown]
          · by_cases hadded : id ∈ added <;>
              simp [hknown, hadded, List.removeAll, List.eraseDups_cons]

theorem Configured.exists_level {actions : List Action} (h : Configured actions) :
    ∃ level, (actions.filterMap Action.level?).getLast? = some level := by
  obtain ⟨before, debug, verbose, after, rfl, -⟩ := h
  refine Option.isSome_iff_exists.mp (List.getLast?_isSome.mpr (List.ne_nil_of_mem
    (List.mem_filterMap.mpr ⟨.configure debug verbose, ?_, rfl⟩)))
  simp

/-- **Console handlers never accumulate, and those of the host stay.** Start without a console handler
and let a program and its host do anything. Then the host has the handlers that it had and, in the
order in which it added them, the new ones. There is at most one console handler, and there is one
exactly if the console was configured and not reset since. It is at the level set last, which is the
root level too, and a record is written once if it reaches that level and not at all otherwise. -/
theorem performAll_handlers (hinstalled : start.installed = none)
    (hlevels : start.consoleLevels = []) (actions : List Action) :
    (start.performAll actions).hosts
        = start.hosts ++ ((actions.filterMap Action.host?).filter (· ∉ start.hosts)).eraseDups
      ∧ (start.performAll actions).consoleLevels.length ≤ 1
      ∧ ((start.performAll actions).consoleLevels ≠ [] ↔ Configured actions)
      ∧ ∀ own ∈ (start.performAll actions).consoleLevels,
          (actions.filterMap Action.level?).getLast? = some own
            ∧ (start.performAll actions).rootLevel = own
            ∧ ∀ (level : Int) (message : String), (start.performAll actions).emit level message
                = if own.number ≤ level then .line (formatRecord level message) else .empty := by
  have htidy := tidy_performAll (tidy_of_consoleLevels hinstalled hlevels _) actions
  have hconfigured := installed_performAll hinstalled actions
  have hroot := rootLevel_performAll start actions
  refine ⟨hosts_performAll start actions, ?_⟩
  rw [htidy.consoleLevels_eq, ← hconfigured]
  cases hserial : (start.performAll actions).installed with
  | none => simp
  | some serial =>
      have hsome := Option.isSome_iff_exists.mpr ⟨serial, hserial⟩
      obtain ⟨level, hlevel⟩ := (hconfigured.mp hsome).exists_level
      rw [hlevel, Option.getD_some] at hroot
      refine ⟨Nat.le_refl 1, by simp, ?_⟩
      intro own hown
      obtain rfl := List.mem_singleton.mp hown
      exact ⟨by rw [hlevel, hroot], rfl, htidy.emit_eq hserial⟩

/-- A program that configures its console anew after a reset, while the host adds two handlers to the
one that it has, one of them twice. -/
theorem performAll_handlers_reconfigured :
    let start : Console := ⟨.warning, [.host 7], none, 0, none⟩
    let actions : List Action :=
      [.configure false true, .addHost 3, .reset, .setLevel .error, .configure false false, .addHost 5,
        .addHost 3, .setLevel .debug]
    (start.performAll actions).hosts = [7, 3, 5] ∧ (start.performAll actions).consoleLevels = [.debug]
      ∧ Configured actions ∧ ∀ message, (start.performAll actions).emit 20 message = .line message := by
  intro start actions
  have hinstalled : start.installed = none := rfl
  obtain ⟨hhosts, -, hconfigured, hlevel⟩ := performAll_handlers hinstalled rfl actions
  have hconsole : (start.performAll actions).consoleLevels = [.debug] := by decide
  refine ⟨hhosts.trans (by decide), hconsole, hconfigured.mp (by simp [hconsole]), ?_⟩
  intro message
  exact ((hlevel .debug (by simp [hconsole])).2.2 20 message).trans rfl

end PostfixSpec.Console
