import Supervisor.Proofs.Address
import Supervisor.Proofs.Decimal
import Supervisor.Worker.Settings

/-!
# Settings survive the environment

A spawned worker finds its settings among the variables of its environment,
where the process that spawned it put them as text.

* `fromVariables_of_toVariables` says what is read back, whatever else the
  environment holds: all of the settings, but of the wait for messages only
  the whole milliseconds.
* `settings_survive`: a wait of whole milliseconds is read back as well.
-/

namespace Supervisor.Worker.Settings

theorem required_of_some {lookup : String → Option String} {name value : String}
    (h : lookup name = some value) : required lookup name = .ok value := by
  rw [required, h]

theorem number_of_toString {lookup : String → Option String} {name : String} {n : Nat}
    (h : lookup name = some (toString n)) (hn : n < UInt64.size) (default : Nat) :
    number lookup name default = .ok n := by
  rw [number, h]
  dsimp only
  rw [Decimal.unsigned?_toString hn]
  rfl

theorem fromVariables_of_toVariables (s : Settings) (htick : s.tick.toMillis < UInt64.size)
    {lookup : String → Option String} (h : ∀ v ∈ s.toVariables, lookup v.1 = some v.2) :
    fromVariables lookup = .ok { s with tick := .ofMillis s.tick.toMillis } := by
  simp only [toVariables, List.forall_mem_cons] at h
  obtain ⟨haddress, hservice, htasks, hmillis, -⟩ := h
  unfold fromVariables
  rw [required_of_some hservice, required_of_some haddress,
    number_of_toString htasks s.maxTasks.toNat_lt, number_of_toString hmillis htick]
  simp [bind, Except.bind, pure, Except.pure, Address.ofText?_text, meaning]

/-- The variables of settings stand under different names, so each is found. -/
theorem lookup_toVariables (s : Settings) :
    ∀ v ∈ s.toVariables, s.toVariables.lookup v.1 = some v.2 := by
  simp [toVariables, List.lookup_cons, addressVariable, serviceVariable, maxTasksVariable,
    tickVariable]

/-- Settings with whatever service, address and number of tasks, and a wait of
whole milliseconds that fit into 64 bits, are read back from the variables that
hand them on.  The same holds of every environment that has these variables,
whatever others it has. -/
theorem settings_survive (s : Settings) {ms : Nat} (htick : s.tick = .ofMillis ms)
    (hms : ms < UInt64.size) :
    fromVariables (fun name => s.toVariables.lookup name) = .ok s ∧
      ∀ env : String → Option String, (∀ v ∈ s.toVariables, env v.1 = some v.2) →
        fromVariables env = .ok s := by
  have hmillis : s.tick.toMillis = ms := by rw [htick, Duration.toMillis_ofMillis]
  have hread : ∀ env : String → Option String, (∀ v ∈ s.toVariables, env v.1 = some v.2) →
      fromVariables env = .ok s := by
    intro env henv
    rw [fromVariables_of_toVariables s (hmillis ▸ hms) henv, hmillis, ← htick]
  exact ⟨hread _ s.lookup_toVariables, hread⟩

/-- A service without a name, a host with zeros at its end and with a scope,
and the largest numbers that there are. -/
theorem settings_survive_largest :
    let s : Settings :=
      { service := ""
        address := .v6 ⟨[0xfe80, 0, 0, 1, 0, 0, 0, 0], rfl⟩ 0xffffffff 0xffff
        maxTasks := 0xffffffffffffffff
        tick := .ofMillis 0xffffffffffffffff }
    s.address.text = "[fe80:0:0:1::%4294967295]:65535" ∧
      fromVariables (fun name => s.toVariables.lookup name) = .ok s :=
  ⟨by decide, (settings_survive _ rfl (by decide)).1⟩

end Supervisor.Worker.Settings
