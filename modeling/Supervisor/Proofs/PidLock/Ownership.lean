import Mathlib.Data.List.Induction
import Supervisor.PidLock
import Supervisor.Proofs.Decimal

/-!
# Who owns a pid file

Many processes use one pid file.  They take locks and give them up, and they
may die at any time without giving up anything.

* `owner?_claim`: a process is read back from the text by which it claims the
  file.  `acquire_cases` says all that taking the lock can do.
* `Site` is the file with the processes and their locks; a history is a list
  of `Deed`s.
* `Exclusive` is what a lock is for: the file names the process of every lock
  that is held, so everybody else is refused.  `Names.perform` shows which
  deeds keep it: all but one.  A process that holds two locks and gives up one
  of them removes the file that the other one stands for.
* `exclusive_throughout_iff`: nothing else ever breaks it.
-/

namespace Supervisor

namespace Node

/-- The process that a file names. -/
def owner? (n : Node) : Option Int32 :=
  n.readText?.bind PidLock.owner?

theorem exists_file_of_owner? {n : Node} {pid : Int32} (h : n.owner? = some pid) :
    ∃ content, n = .file content := by
  cases n with
  | file content => exact ⟨content, rfl⟩
  | nothing | noParent | directory => cases h

end Node

namespace PidLock

variable {own pid : Int32} {probe : Int32 → Probe} {n : Node}

/-- The file by which a process claims the lock. -/
def claimed (own : Int32) : Node :=
  .file (Wire.utf8 (claim own))

/-- A process is read back from its claim. -/
theorem owner?_claim (own : Int32) : owner? (claim own) = some own := by
  have hlow : -((Int32.size / 2 : Nat) : Int) ≤ own.toInt := own.le_toInt
  have hhigh : own.toInt < ((Int32.size / 2 : Nat) : Int) := own.toInt_lt
  have htext : (claim own).toList = (toString own.toInt).toList ++ ['\n'] :=
    String.toList_append
  rw [owner?, htext, Decimal.trimBlank_toString, Decimal.signed?_toString hlow hhigh,
    Option.map_some, Int32.ofInt_toInt]

@[simp] theorem owner?_claimed (own : Int32) : (claimed own).owner? = some own := by
  show (Wire.text? (Wire.utf8 (claim own))).bind owner? = some own
  rw [Wire.text?_utf8]
  exact owner?_claim own

/-! ## Taking the lock -/

/-- Another process that is alive keeps its lock. -/
theorem acquire_of_owner (h : n.owner? = some pid) (hne : pid ≠ own)
    (halive : isAlive probe pid = true) :
    acquire own probe n = (.error (.alreadyRunning pid), n) := by
  have hholder : holder? own probe n = some pid := by
    show n.owner?.filter _ = some pid
    rw [h, Option.filter_some]
    simp [hne, halive]
  rw [acquire, hholder]

/-- All that taking the lock can do: it is refused, the file now names the
process, or the file cannot be written. -/
theorem acquire_cases (own : Int32) (probe : Int32 → Probe) (n : Node) :
    (∃ pid, acquire own probe n = (.error (.alreadyRunning pid), n)) ∨
      acquire own probe n = (.ok ⟨false⟩, claimed own) ∨
        ∃ failure, acquire own probe n = (.error (.io failure "failed to write pid file"), n) := by
  unfold acquire
  split
  · rename_i pid _
    exact Or.inl ⟨pid, rfl⟩
  · cases n with
    | nothing | file => exact Or.inr (Or.inl rfl)
    | noParent | directory => exact Or.inr (Or.inr ⟨_, rfl⟩)

/-- A process that the file names may take the lock again. -/
theorem acquire_of_owner_self (h : n.owner? = some own) :
    acquire own probe n = (.ok ⟨false⟩, claimed own) := by
  obtain ⟨content, rfl⟩ := Node.exists_file_of_owner? h
  have hholder : holder? own probe (.file content) = none := by
    show (Node.file content).owner?.filter _ = none
    rw [h, Option.filter_some]
    simp
  rw [acquire, hholder]
  rfl

/-- Giving up a lock that is held removes the file. -/
theorem release_of_owner {l : PidLock} (hheld : l.released = false) (h : n.owner? = some pid) :
    l.release n = (.ok (), ⟨true⟩, .nothing) := by
  obtain ⟨content, rfl⟩ := Node.exists_file_of_owner? h
  rw [release, hheld]
  rfl

theorem release_of_released {l : PidLock} (h : l.released = true) (n : Node) :
    l.release n = (.ok (), l, n) := by
  rw [release, if_pos h]

/-- Whatever becomes of the file, a lock is given up once and for all. -/
theorem released_release (l : PidLock) (n : Node) : (l.release n).2.1.released = true := by
  unfold release
  split
  · assumption
  · split
    · rfl
    · split
      · rfl
      · rfl

/-- The file after a process has taken the lock, and forgotten the one that it
held. -/
def renewed (own : Int32) : Option PidLock → Node
  | none => claimed own
  | some held => held.dispose (claimed own)

/-- Taking the lock again either fails and changes nothing, or succeeds. -/
theorem renew_cases (own : Int32) (probe : Int32 → Probe) (held : Option PidLock) (n : Node) :
    (∃ e, renew own probe held n = (.error e, n)) ∨
      renew own probe held n = (.ok ⟨false⟩, renewed own held) := by
  unfold renew
  rcases acquire_cases own probe n with ⟨pid, h⟩ | h | ⟨failure, h⟩
  · rw [h]
    exact Or.inl ⟨_, rfl⟩
  · rw [h]
    cases held with
    | none | some => exact Or.inr rfl
  · rw [h]
    exact Or.inl ⟨_, rfl⟩

/-- A process that the file names may take the lock again and again. -/
theorem renew_of_owner (h : n.owner? = some own) (held : Option PidLock) :
    renew own probe held n = (.ok ⟨false⟩, renewed own held) := by
  unfold renew
  rw [acquire_of_owner_self h]
  cases held with
  | none | some => rfl

/-- Whoever forgets a lock that is held removes the file of the new one. -/
theorem renewed_of_held (own : Int32) {held : PidLock} (h : held.released = false) :
    renewed own (some held) = .nothing := by
  show (held.release (claimed own)).2.2 = _
  rw [release_of_owner h (owner?_claimed own)]

/-- A lock that is given up successfully leaves no file behind. -/
theorem node_of_release {l : PidLock} (hheld : l.released = false)
    (h : (l.release n).1 = .ok ()) :
    (l.release n).2.2 = .nothing ∨ (l.release n).2.2 = .noParent := by
  rw [release, hheld] at h ⊢
  cases n with
  | nothing | file => exact Or.inl rfl
  | noParent => exact Or.inr rfl
  | directory => cases h

end PidLock

/-! ## Processes around one file -/

/-- A lock in the hands of a process. -/
structure Holding where
  process : Int32
  lock : PidLock
deriving DecidableEq, Repr

/-- Whether the lock is held: it was taken and not yet given up. -/
def Holding.Held (h : Holding) : Prop :=
  h.lock.released = false

/-- The path of a pid file, and the processes that use it. -/
structure Site where
  node : Node
  /-- The processes that are alive. -/
  living : List Int32
  locks : List Holding
  /-- Whether a process may not signal another one. -/
  forbids : Int32 → Int32 → Bool

/-- What may happen at a site. -/
inductive Deed where
  /-- A process comes to be; it gets a pid that nobody has. -/
  | start (pid : Int32)
  /-- A process dies, and gives up nothing. -/
  | die (pid : Int32)
  | acquire (pid : Int32)
  /-- The process with the lock of this number gives it up. -/
  | release (number : Nat)
  /-- The process with the lock of this number forgets it. -/
  | drop (number : Nat)
deriving DecidableEq, Repr

/-- The number of the lock that is given up. -/
def Deed.givesUp? : Deed → Option Nat
  | .release number => some number
  | .drop number => some number
  | _ => none

namespace Site

/-- A path that nobody uses yet. -/
def deserted (node : Node) (forbids : Int32 → Int32 → Bool) : Site :=
  ⟨node, [], [], forbids⟩

/-- What a process learns when it probes another one. -/
def probe (x : Site) (own pid : Int32) : Probe :=
  if pid ∈ x.living then if x.forbids own pid then .forbidden else .present else .absent

/-- A process tries to take the lock. -/
def take (x : Site) (pid : Int32) : Site :=
  match PidLock.acquire pid (x.probe pid) x.node with
  | (.ok lock, node) => { x with node, locks := x.locks ++ [⟨pid, lock⟩] }
  | (.error _, node) => { x with node }

/-- The site after a deed.  The dead do nothing. -/
def perform (x : Site) : Deed → Site
  | .start pid =>
    if 0 < pid ∧ pid ∉ x.living then { x with living := pid :: x.living } else x
  | .die pid =>
    { x with
      living := x.living.filter (· ≠ pid)
      locks := x.locks.filter (·.process ≠ pid) }
  | .acquire pid => if pid ∈ x.living then x.take pid else x
  | .release number =>
    match x.locks[number]? with
    | none => x
    | some h =>
      let (_, lock, node) := h.lock.release x.node
      { x with node, locks := x.locks.set number { h with lock } }
  | .drop number =>
    match x.locks[number]? with
    | none => x
    | some h => { x with node := h.lock.dispose x.node, locks := x.locks.eraseIdx number }

/-- The site after a history. -/
def run (x : Site) (deeds : List Deed) : Site :=
  deeds.foldl perform x

/-- A site as deeds leave it: only living processes hold locks. -/
structure Sound (x : Site) : Prop where
  positive : ∀ pid ∈ x.living, 0 < pid
  alive : ∀ h ∈ x.locks, h.process ∈ x.living

/-- The file names the process of every lock that is held. -/
def Names (x : Site) : Prop :=
  ∀ h ∈ x.locks, h.Held → x.node.owner? = some h.process

/-- The file names the process of every lock that is held, and nobody else
gets the lock. -/
def Exclusive (x : Site) : Prop :=
  ∀ h ∈ x.locks, h.Held → x.node.owner? = some h.process ∧
    ∀ pid, pid ≠ h.process →
      PidLock.acquire pid (x.probe pid) x.node = (.error (.alreadyRunning h.process), x.node)

/-- A process holds two locks, and the deed gives up one of them. -/
def Halves (x : Site) (d : Deed) : Prop :=
  ∃ number number' h h', d.givesUp? = some number ∧ number' ≠ number ∧
    x.locks[number]? = some h ∧ x.locks[number']? = some h' ∧
      h.Held ∧ h'.Held ∧ h'.process = h.process

variable {x : Site} {d : Deed}

theorem isAlive_probe {own pid : Int32} (hpid : 0 < pid) (h : pid ∈ x.living) :
    isAlive (x.probe own) pid = true := by
  have hprobe : x.probe own pid ≠ .absent := by
    rw [probe, if_pos h]
    split <;> decide
  simp [isAlive, hpid, hprobe]

/-- Refusing others is all in the name. -/
theorem Sound.exclusive_iff (hx : x.Sound) : x.Exclusive ↔ x.Names := by
  constructor
  · intro h g hg hheld
    exact (h g hg hheld).1
  · intro h g hg hheld
    have halive := hx.alive g hg
    refine ⟨h g hg hheld, fun pid hne => ?_⟩
    exact PidLock.acquire_of_owner (h g hg hheld) (Ne.symm hne)
      (isAlive_probe (hx.positive _ halive) halive)

/-! ## One deed -/

/-- A process that gets the lock puts its name into the file; one that does
not leaves all as it is. -/
theorem take_cases (x : Site) (pid : Int32) :
    x.take pid = x ∨
      (PidLock.acquire pid (x.probe pid) x.node = (.ok ⟨false⟩, PidLock.claimed pid) ∧
        x.take pid =
          { x with node := PidLock.claimed pid, locks := x.locks ++ [⟨pid, ⟨false⟩⟩] }) := by
  unfold take
  rcases PidLock.acquire_cases pid (x.probe pid) x.node with ⟨_, h⟩ | h | ⟨_, h⟩
  · rw [h]
    exact Or.inl rfl
  · rw [h]
    exact Or.inr ⟨rfl, rfl⟩
  · rw [h]
    exact Or.inl rfl

/-- What giving up the lock of a number does to a site. -/
structure GivesUp (x : Site) (number : Nat) (h : Holding) (y : Site) : Prop where
  node : y.node = (h.lock.release x.node).2.2
  living : y.living = x.living
  process : ∀ g ∈ y.locks, ∃ g' ∈ x.locks, g'.process = g.process
  /-- The lock is not held any more. -/
  others : ∀ g ∈ y.locks, g.Held → ∃ m, m ≠ number ∧ x.locks[m]? = some g
  kept : ∀ {m g}, m ≠ number → x.locks[m]? = some g → g ∈ y.locks

/-- Releasing and forgetting a lock come to the same. -/
theorem givesUp_perform {number : Nat} {h : Holding} (hd : d.givesUp? = some number)
    (hlock : x.locks[number]? = some h) : x.GivesUp number h (x.perform d) := by
  cases d with
  | start | die | acquire => cases hd
  | release n =>
    obtain rfl : n = number := Option.some.inj hd
    have hset : x.perform (.release n) =
        { x with
          node := (h.lock.release x.node).2.2
          locks := x.locks.set n { h with lock := (h.lock.release x.node).2.1 } } := by
      simp only [perform, hlock]
    rw [hset]
    refine ⟨rfl, rfl, fun g hg => ?_, fun g hg hheld => ?_, fun {m g} hm hmg => ?_⟩
    · rcases List.mem_or_eq_of_mem_set hg with hold | rfl
      · exact ⟨g, hold, rfl⟩
      · exact ⟨h, List.mem_of_getElem? hlock, rfl⟩
    · obtain ⟨m, hmg⟩ := List.mem_iff_getElem?.mp hg
      by_cases hm : m = n
      · subst hm
        rw [List.getElem?_set_self (List.getElem?_eq_some_iff.mp hlock).1] at hmg
        obtain rfl := Option.some.inj hmg
        have hgone : (h.lock.release x.node).2.1.released = true := PidLock.released_release _ _
        exact absurd (hgone.symm.trans hheld) (by decide)
      · rw [List.getElem?_set_ne (Ne.symm hm)] at hmg
        exact ⟨m, hm, hmg⟩
    · refine List.mem_iff_getElem?.mpr ⟨m, ?_⟩
      rw [List.getElem?_set_ne (Ne.symm hm)]
      exact hmg
  | drop n =>
    obtain rfl : n = number := Option.some.inj hd
    have herase : x.perform (.drop n) =
        { x with node := h.lock.dispose x.node, locks := x.locks.eraseIdx n } := by
      simp only [perform, hlock]
    rw [herase]
    refine ⟨rfl, rfl, fun g hg => ?_, fun g hg _ => ?_, fun hm hmg => ?_⟩
    · exact ⟨g, List.mem_of_mem_eraseIdx hg, rfl⟩
    · exact List.mem_eraseIdx_iff_getElem?.mp hg
    · exact List.mem_eraseIdx_iff_getElem?.mpr ⟨_, hm, hmg⟩

theorem perform_of_unknown {number : Nat} (hd : d.givesUp? = some number)
    (hlock : x.locks[number]? = none) : x.perform d = x := by
  cases d with
  | start | die | acquire => cases hd
  | release n | drop n =>
    obtain rfl : n = number := Option.some.inj hd
    simp only [perform, hlock]

theorem Sound.take (hx : x.Sound) {pid : Int32} (hpid : pid ∈ x.living) : (x.take pid).Sound := by
  rcases take_cases x pid with h | ⟨_, h⟩
  · rw [h]
    exact hx
  · rw [h]
    refine ⟨hx.positive, fun g hg => ?_⟩
    rcases List.mem_append.mp hg with hold | hnew
    · exact hx.alive g hold
    · rw [List.mem_singleton.mp hnew]
      exact hpid

theorem Sound.givesUp (hx : x.Sound) {number : Nat} {h : Holding} {y : Site}
    (hy : x.GivesUp number h y) : y.Sound := by
  refine ⟨?_, fun g hg => ?_⟩
  · rw [hy.living]
    exact hx.positive
  · obtain ⟨g', hg', hprocess⟩ := hy.process g hg
    rw [hy.living, ← hprocess]
    exact hx.alive g' hg'

theorem Sound.perform (hx : x.Sound) (d : Deed) : (x.perform d).Sound := by
  cases hd : d.givesUp? with
  | some number =>
    cases hlock : x.locks[number]? with
    | none =>
      rw [perform_of_unknown hd hlock]
      exact hx
    | some h => exact hx.givesUp (givesUp_perform hd hlock)
  | none =>
    cases d with
    | start pid =>
      show Sound (if _ then _ else _)
      split
      · rename_i hpid
        exact ⟨List.forall_mem_cons.mpr ⟨hpid.1, hx.positive⟩,
          fun g hg => List.mem_cons_of_mem _ (hx.alive g hg)⟩
      · exact hx
    | die pid =>
      refine ⟨fun q hq => hx.positive q (List.mem_filter.mp hq).1, fun g hg => ?_⟩
      obtain ⟨hlock, hother⟩ := List.mem_filter.mp hg
      exact List.mem_filter.mpr ⟨hx.alive g hlock, hother⟩
    | acquire pid =>
      show Sound (if _ then _ else _)
      split
      · rename_i hpid
        exact hx.take hpid
      · exact hx
    | release | drop => cases hd

/-- Whoever gets the lock is the only one to hold it. -/
theorem Names.take (hx : x.Sound) (hnames : x.Names) (pid : Int32) : (x.take pid).Names := by
  rcases take_cases x pid with h | ⟨hacquire, h⟩
  · rw [h]
    exact hnames
  · rw [h]
    intro g hg hheld
    rcases List.mem_append.mp hg with hold | hnew
    · have hsame : g.process = pid := by
        apply Classical.byContradiction
        intro hne
        have halive := hx.alive g hold
        rw [PidLock.acquire_of_owner (hnames g hold hheld) hne
          (isAlive_probe (hx.positive _ halive) halive)] at hacquire
        cases hacquire
      rw [hsame]
      exact PidLock.owner?_claimed pid
    · rw [List.mem_singleton.mp hnew]
      exact PidLock.owner?_claimed pid

/-- Giving up a lock spares the file or takes away the only lock that was
held, unless its process holds another one. -/
theorem Names.givesUp (hnames : x.Names) {number : Nat} {h : Holding} {y : Site}
    (hy : x.GivesUp number h y) (hlock : x.locks[number]? = some h)
    (halone : ∀ m g, m ≠ number → x.locks[m]? = some g → h.Held → g.Held →
      g.process ≠ h.process) : y.Names := by
  intro g hg hheld
  obtain ⟨m, hm, hmg⟩ := hy.others g hg hheld
  have hname := hnames g (List.mem_of_getElem? hmg) hheld
  cases hreleased : h.lock.released with
  | true =>
    rw [hy.node, PidLock.release_of_released hreleased]
    exact hname
  | false =>
    have hname' := hnames h (List.mem_of_getElem? hlock) hreleased
    have hsame : g.process = h.process := Option.some.inj (hname.symm.trans hname')
    exact absurd hsame (halone m g hm hmg hreleased hheld)

/-- A name in the file stays unless half of what a process holds is given up. -/
theorem Names.perform (hx : x.Sound) (hnames : x.Names) (hd : ¬ x.Halves d) :
    (x.perform d).Names := by
  cases hup : d.givesUp? with
  | some number =>
    cases hlock : x.locks[number]? with
    | none =>
      rw [perform_of_unknown hup hlock]
      exact hnames
    | some h =>
      refine hnames.givesUp (givesUp_perform hup hlock) hlock ?_
      intro m g hm hmg hheld hheld' hsame
      exact hd ⟨number, m, h, g, hup, hm, hlock, hmg, hheld, hheld', hsame⟩
  | none =>
    cases d with
    | start pid =>
      show Names (if _ then _ else _)
      split
      · exact hnames
      · exact hnames
    | die pid =>
      intro g hg hheld
      exact hnames g (List.mem_filter.mp hg).1 hheld
    | acquire pid =>
      show Names (if _ then _ else _)
      split
      · exact hnames.take hx pid
      · exact hnames
    | release | drop => cases hup

/-- Half of what a process holds stands for a file that is gone. -/
theorem not_names_of_halves (hnames : x.Names) (hd : x.Halves d) : ¬ (x.perform d).Names := by
  obtain ⟨number, m, h, g, hup, hm, hlock, hmg, hheld, hheld', _⟩ := hd
  have hy := givesUp_perform hup hlock
  intro hafter
  have hname := hafter g (hy.kept hm hmg) hheld'
  rw [hy.node, PidLock.release_of_owner hheld (hnames h (List.mem_of_getElem? hlock) hheld)]
    at hname
  cases hname

/-! ## Histories -/

theorem run_concat (x : Site) (deeds : List Deed) (d : Deed) :
    x.run (deeds ++ [d]) = (x.run deeds).perform d := by
  rw [run, List.foldl_append]
  rfl

theorem sound_deserted (node : Node) (forbids : Int32 → Int32 → Bool) :
    (deserted node forbids).Sound where
  positive _ hpid := by cases hpid
  alive _ hg := by cases hg

theorem Sound.run (hx : x.Sound) (deeds : List Deed) : (x.run deeds).Sound := by
  induction deeds generalizing x with
  | nil => exact hx
  | cons d deeds ih => exact ih (hx.perform d)

/-- Whatever processes do with a pid file, and whenever they die: as long as a
process holds the lock the file names it and everybody else is refused,
throughout the history exactly if no process ever holds two locks and gives up
one of them. -/
theorem exclusive_throughout_iff (node : Node) (forbids : Int32 → Int32 → Bool)
    (deeds : List Deed) :
    (∀ past, past <+: deeds → ((deserted node forbids).run past).Exclusive) ↔
      ∀ past d, past ++ [d] <+: deeds → ¬ ((deserted node forbids).run past).Halves d := by
  have hsound := fun past => (sound_deserted node forbids).run past
  constructor
  · intro hexclusive past d hpast hhalves
    have hbefore := hexclusive past ((List.prefix_append past [d]).trans hpast)
    have hafter := hexclusive (past ++ [d]) hpast
    rw [(hsound _).exclusive_iff] at hbefore hafter
    rw [run_concat] at hafter
    exact not_names_of_halves hbefore hhalves hafter
  · intro hwhole past
    rw [(hsound past).exclusive_iff]
    induction past using List.reverseRecOn with
    | nil =>
      intro _ g hg
      cases hg
    | append_singleton past d ih =>
      intro hpast
      have hbefore := ih ((List.prefix_append past [d]).trans hpast)
      rw [run_concat]
      exact hbefore.perform (hsound past) (hwhole past d hpast)

/-- A process takes the lock twice and gives it up once.  It still holds a
lock, but there is no file, and the next process gets the lock as well. -/
theorem half_given_up_admits_another :
    let x := (deserted .nothing fun _ _ => false).run
      [.start 100, .start 200, .acquire 100, .acquire 100, .drop 0]
    (∃ h ∈ x.locks, h.Held ∧ h.process = 100 ∧ 100 ∈ x.living) ∧
      ¬ x.Exclusive ∧
      PidLock.acquire 200 (x.probe 200) x.node = (.ok ⟨false⟩, PidLock.claimed 200) := by
  intro x
  let once : Site := ⟨PidLock.claimed 100, [200, 100], [⟨100, ⟨false⟩⟩], fun _ _ => false⟩
  have htwice : once.take 100 = { once with locks := once.locks ++ [⟨100, ⟨false⟩⟩] } := by
    rw [take, PidLock.acquire_of_owner_self (PidLock.owner?_claimed 100)]
  have hx : x = { once with node := .nothing } := by
    show (once.take 100).perform (.drop 0) = _
    rw [htwice]
    rfl
  rw [hx]
  refine ⟨⟨⟨100, ⟨false⟩⟩, by decide, rfl, rfl, by decide⟩, fun hexclusive => ?_, rfl⟩
  have hname := (hexclusive ⟨100, ⟨false⟩⟩ (by decide) rfl).1
  cases hname

end Site

end Supervisor
