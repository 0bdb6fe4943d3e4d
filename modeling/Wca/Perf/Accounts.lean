import Wca.Perf.Decoding
import Wca.Perf.OnlineCpus

/-!
# Runs of constructors and cleanups

The counters of containers are made and cleaned up in any order. Whatever the kernel answers, the files
that are open are those from before, those of the instances that were not cleaned up, each with its
groups as they were opened, and the directories of the constructors that raised (`run_accounts`).

What a live instance reads is what was counted for its own events, unless the cpus that were online
changed while it was made; then the reader raises (`getMeasurements_live`).
-/

namespace Wca.Perf

open Py Os Table

/-! ## Runs -/

/-- The kernel, the instances that were not cleaned up, and what was left open besides. -/
structure CountersState where
  kernel : Kernel
  sessions : List PerfSession
  leftovers : List Fd

inductive CountersAction where
  | create (cgroupPath : String) (eventNames : List MetricName) (cpuCodename : CPUCodeName)
      (aggregateForAllCpusWithSum : Bool)
  | cleanup (i : ℕ)

variable {env : Environment} {k k' k₀ : Kernel} {w : CountersState}

/-- The instance that a constructor returns is kept. -/
def create (env : Environment) (w : CountersState) (cgroupPath : String) (eventNames : List MetricName)
    (cpuCodename : CPUCodeName) (aggregateForAllCpusWithSum : Bool) : CountersState :=
  match (initCounters env cgroupPath eventNames cpuCodename).run w.kernel with
  | .ok files k => { w with
      kernel := k
      sessions := w.sessions ++ [{ files, cgroupPath, eventNames, cpuCodename, aggregateForAllCpusWithSum }] }
  | .error _ k => { w with
      kernel := k
      leftovers := w.leftovers ++ k.table.files.keys.filter (· ∉ w.kernel.table.files.keys) }

/-- The instance at a place is cleaned up. -/
def cleanup (w : CountersState) (i : ℕ) : CountersState :=
  match w.sessions[i]? with
  | some session => { w with
      kernel := session.files.cleanup w.kernel
      sessions := w.sessions.eraseIdx i }
  | none => w

def act (env : Environment) (w : CountersState) : CountersAction → CountersState
  | .create cgroupPath eventNames cpuCodename aggregate =>
    create env w cgroupPath eventNames cpuCodename aggregate
  | .cleanup i => cleanup w i

def runActions (env : Environment) (k : Kernel) (actions : List CountersAction) : CountersState :=
  actions.foldl (act env) ⟨k, [], []⟩

def CountersAction.isCreate : CountersAction → Bool
  | .create .. => true
  | .cleanup _ => false

/-- Who holds the open files. -/
def CountersState.holdings (k₀ : Kernel) (w : CountersState) : List (List Fd) :=
  k₀.table.files.keys :: (w.leftovers.map ([·]) ++ w.sessions.map (·.files.fds))

/-- Every open file is from before, or of one instance, or a directory that was left; nothing from before
was touched, and every instance is live. -/
structure Accounts (env : Environment) (k₀ : Kernel) (w : CountersState) : Prop where
  ledger : w.kernel.table.Ledger (w.holdings k₀)
  before : Untouched k₀ w.kernel k₀.table.files.keys
  live : ∀ session ∈ w.sessions, ∃ reads, Live env w.kernel session reads
  directories : ∀ fd ∈ w.leftovers, ∃ path, w.kernel.table.files.get? fd = some (.directory path)

namespace Accounts

theorem start (env : Environment) (k₀ : Kernel) : Accounts env k₀ ⟨k₀, [], []⟩ :=
  ⟨Ledger.single k₀.table, Untouched.refl _ _, by simp, by simp⟩

/-- What changes nothing that is open keeps the accounts of all holders. -/
theorem untouched_holding (h : Accounts env k₀ w) (hextends : Untouched w.kernel k w.kernel.table.files.keys)
    {fds : List Fd} (hfds : fds ∈ w.holdings k₀) : Untouched w.kernel k fds :=
  hextends.mono fun _ hfd => h.ledger.mem_keys hfds hfd

theorem session_mem {session : PerfSession} (hsession : session ∈ w.sessions) :
    session.files.fds ∈ w.holdings k₀ :=
  List.mem_cons_of_mem _ (List.mem_append_right _ (List.mem_map_of_mem hsession))

theorem leftover_mem {fd : Fd} (hfd : fd ∈ w.leftovers) : [fd] ∈ w.holdings k₀ :=
  List.mem_cons_of_mem _ (List.mem_append_left _ (List.mem_map_of_mem hfd))

/-- The holders that are left when the files of the others were not touched. -/
theorem of_untouched (h : Accounts env k₀ w) {sessions : List PerfSession} {leftovers : List Fd}
    (hledger : k.table.Ledger (CountersState.holdings k₀ ⟨k, sessions, leftovers⟩))
    (hbefore : Untouched w.kernel k k₀.table.files.keys)
    (hsessions : ∀ session ∈ sessions, (∃ reads, Live env k session reads) ∨
      session ∈ w.sessions ∧ Untouched w.kernel k session.files.fds)
    (hleftovers : ∀ fd ∈ leftovers, (∃ path, k.table.files.get? fd = some (.directory path)) ∨
      fd ∈ w.leftovers ∧ Untouched w.kernel k [fd]) :
    Accounts env k₀ ⟨k, sessions, leftovers⟩ := by
  refine ⟨hledger, h.before.trans hbefore, fun session hsession => ?_, fun fd hfd => ?_⟩
  · obtain hlive | ⟨hmem, huntouched⟩ := hsessions session hsession
    · exact hlive
    · obtain ⟨reads, hlive⟩ := h.live session hmem
      exact ⟨reads, hlive.untouched huntouched⟩
  · obtain hdir | ⟨hmem, huntouched⟩ := hleftovers fd hfd
    · exact hdir
    · obtain ⟨path, hpath⟩ := h.directories fd hmem
      exact ⟨path, (huntouched.same.get? fd List.mem_cons_self).trans hpath⟩

/-- A constructor returned. -/
theorem made (h : Accounts env k₀ w) {session : PerfSession} (hmakes : Makes env w.kernel session k) :
    Accounts env k₀ ⟨k, w.sessions ++ [session], w.leftovers⟩ := by
  obtain ⟨hextends, reads, hlive⟩ := hmakes
  have hledger := h.ledger.opened hextends.keys hextends.untouched.same
  refine h.of_untouched ?_ (h.untouched_holding hextends.untouched List.mem_cons_self)
    (fun session' hsession' => ?_) fun fd hfd => ?_
  · rw [CountersState.holdings] at hledger ⊢
    simpa using hledger
  · obtain hmem | hnew := List.mem_append.mp hsession'
    · exact Or.inr ⟨hmem, h.untouched_holding hextends.untouched (session_mem hmem)⟩
    · rw [List.mem_singleton.mp hnew]
      exact Or.inl ⟨reads, hlive⟩
  · exact Or.inr ⟨hfd, h.untouched_holding hextends.untouched (leftover_mem hfd)⟩

/-- Files that were opened and belong to no instance. -/
theorem extended (h : Accounts env k₀ w) {fds : List Fd} (hextends : Extends w.kernel k fds)
    (hledger : k.table.Ledger (w.holdings k₀ ++ fds.map ([·])))
    (hdirs : ∀ fd ∈ fds, ∃ path, k.table.files.get? fd = some (.directory path)) :
    Accounts env k₀ ⟨k, w.sessions, w.leftovers ++ fds⟩ := by
  refine h.of_untouched (hledger.of_perm ?_) (h.untouched_holding hextends.untouched List.mem_cons_self)
    (fun session hsession => Or.inr ⟨hsession, h.untouched_holding hextends.untouched (session_mem hsession)⟩)
    fun fd hfd => ?_
  · simp only [CountersState.holdings, List.map_append, List.cons_append, List.append_assoc]
    exact ((List.perm_append_comm).append_left _).cons _
  · obtain hmem | hnew := List.mem_append.mp hfd
    · exact Or.inr ⟨hmem, h.untouched_holding hextends.untouched (leftover_mem hmem)⟩
    · exact Or.inl (hdirs fd hnew)

/-- The descriptors that are new. -/
theorem filter_new {fds : List Fd} (hextends : Extends k k' fds) (hfds : fds.length ≤ 1) :
    k'.table.files.keys.filter (· ∉ k.table.files.keys) = fds := by
  have hnodup := hextends.keys.nodup_iff.mp k'.table.files.nodup
  have hperm : (k'.table.files.keys.filter (· ∉ k.table.files.keys)).Perm fds := by
    refine (hextends.keys.filter _).trans (List.Perm.of_eq ?_)
    have hold : k.table.files.keys.filter (· ∉ k.table.files.keys) = [] :=
      List.filter_eq_nil_iff.mpr fun x hx h => of_decide_eq_true h hx
    rw [List.filter_append, hold, List.nil_append]
    exact List.filter_eq_self.mpr fun x hx =>
      decide_eq_true fun hin => List.disjoint_of_nodup_append hnodup hin hx
  cases fds with
  | nil => exact List.perm_nil.mp hperm
  | cons fd fds =>
    have hnil : fds = [] := List.length_eq_zero_iff.mp (by simpa using hfds)
    rw [hnil] at hperm ⊢
    exact List.perm_singleton.mp hperm

/-- A constructor raised. -/
theorem leaked (h : Accounts env k₀ w) (hleaks : Leaks w.kernel k) : Accounts env k₀
    ⟨k, w.sessions, w.leftovers ++ k.table.files.keys.filter (· ∉ w.kernel.table.files.keys)⟩ := by
  obtain hextends | ⟨dir, path, hextends, hdir⟩ := hleaks
  · have hledger := h.ledger.opened hextends.keys hextends.untouched.same
    rw [filter_new hextends (by simp)]
    exact h.extended hextends (by simpa using hledger.drop_empty) (by simp)
  · have hledger := h.ledger.opened hextends.keys hextends.untouched.same
    rw [filter_new hextends (by simp)]
    refine h.extended hextends hledger fun fd hfd => ⟨path, ?_⟩
    rwa [List.mem_singleton.mp hfd]

theorem create (h : Accounts env k₀ w) (cgroupPath : String) (names : List MetricName)
    (codename : CPUCodeName) (aggregate : Bool) :
    Accounts env k₀ (create env w cgroupPath names codename aggregate) := by
  have hinit := initCounters_wp env w.kernel cgroupPath names codename aggregate
  rw [wp_iff] at hinit
  rw [Perf.create]
  cases hrun : (initCounters env cgroupPath names codename).run w.kernel with
  | ok files k => exact h.made (hinit.1 files k hrun)
  | error e k => exact h.leaked (hinit.2 e k hrun).1

/-- An instance is cleaned up: nothing that another one holds is touched. -/
theorem cleaned (h : Accounts env k₀ w) {pre post : List PerfSession} {session : PerfSession}
    (hsessions : w.sessions = pre ++ session :: post) :
    Accounts env k₀ ⟨session.files.cleanup w.kernel, pre ++ post, w.leftovers⟩ := by
  have hholdings : w.holdings k₀ = (k₀.table.files.keys ::
      (w.leftovers.map ([·]) ++ pre.map (·.files.fds))) ++
        session.files.fds :: post.map (·.files.fds) := by
    simp [CountersState.holdings, hsessions]
  have hledger := h.ledger
  rw [hholdings] at hledger
  have hclosed := cleanup_perm session.files
  have huntouched : ∀ fds ∈ k₀.table.files.keys :: (w.leftovers.map ([·]) ++ (pre ++ post).map (·.files.fds)),
      Untouched w.kernel (session.files.cleanup w.kernel) fds := by
    intro fds hfds
    have hother : fds ∈ (k₀.table.files.keys :: (w.leftovers.map ([·]) ++ pre.map (·.files.fds))) ++
        post.map (·.files.fds) := by simpa [or_assoc] using hfds
    rw [cleanup_eq]
    refine untouched_closeAll (h.ledger.apart fds ?_) fun fd hfd =>
      hledger.not_mem_other hother (hclosed.mem_iff.mp hfd)
    rw [hholdings]
    exact (List.mem_append.mp hother).elim (List.mem_append_left _)
      fun hpost => List.mem_append_right _ (List.mem_cons_of_mem _ hpost)
  refine h.of_untouched ?_ (huntouched _ List.mem_cons_self) (fun session' hsession' => Or.inr ⟨?_, ?_⟩)
    fun fd hfd => Or.inr ⟨hfd, ?_⟩
  · rw [cleanup_eq, table_closeAll]
    have hrest := hledger.closed hclosed
    simpa [CountersState.holdings] using hrest
  · rw [hsessions]
    exact (List.mem_append.mp hsession').elim (List.mem_append_left _)
      fun hpost => List.mem_append_right _ (List.mem_cons_of_mem _ hpost)
  · exact huntouched _ (List.mem_cons_of_mem _ (List.mem_append_right _ (List.mem_map_of_mem hsession')))
  · exact huntouched _ (List.mem_cons_of_mem _ (List.mem_append_left _ (List.mem_map_of_mem hfd)))

theorem cleanup (h : Accounts env k₀ w) (i : ℕ) : Accounts env k₀ (cleanup w i) := by
  rw [Perf.cleanup]
  cases hget : w.sessions[i]? with
  | none => exact h
  | some session =>
    obtain ⟨hi, rfl⟩ := List.getElem?_eq_some_iff.mp hget
    have hsplit : w.sessions = w.sessions.take i ++ w.sessions[i] :: w.sessions.drop (i + 1) := by
      rw [List.getElem_cons_drop, List.take_append_drop]
    have hcleaned := h.cleaned hsplit
    rwa [← List.eraseIdx_eq_take_drop_succ] at hcleaned

theorem act (h : Accounts env k₀ w) (action : CountersAction) : Accounts env k₀ (act env w action) := by
  cases action with
  | create cgroupPath names codename aggregate => exact h.create cgroupPath names codename aggregate
  | cleanup i => exact h.cleanup i

/-- The run lemma. -/
theorem foldl_act (h : Accounts env k₀ w) (actions : List CountersAction) :
    Accounts env k₀ (actions.foldl (Perf.act env) w) := by
  induction actions generalizing w with
  | nil => exact h
  | cons action actions ih => exact ih (h.act action)

/-- What is open. -/
theorem keys (h : Accounts env k₀ w) : w.kernel.table.files.keys.Perm
    (k₀.table.files.keys ++ w.leftovers ++ w.sessions.flatMap (·.files.fds)) := by
  refine h.ledger.perm.trans (List.Perm.of_eq ?_)
  have hsingle : ∀ fds : List Fd, (fds.map ([·])).flatten = fds := fun fds => by
    induction fds with
    | nil => rfl
    | cons fd fds ih => rw [List.map_cons, List.flatten_cons, ih, List.singleton_append]
  rw [CountersState.holdings, List.flatten_cons, List.flatten_append, hsingle, List.append_assoc,
    List.flatMap_def]

end Accounts

/-- The instances and the leftovers. -/
def CountersState.owed (w : CountersState) : ℕ := w.leftovers.length + w.sessions.length

theorem owed_act (env : Environment) (w : CountersState) (action : CountersAction) :
    (act env w action).owed ≤ w.owed + [action].countP CountersAction.isCreate := by
  cases action with
  | create cgroupPath names codename aggregate =>
    have hinit := initCounters_wp env w.kernel cgroupPath names codename aggregate
    rw [wp_iff] at hinit
    show (create env w cgroupPath names codename aggregate).owed ≤ w.owed + 1
    rw [create]
    cases hrun : (initCounters env cgroupPath names codename).run w.kernel with
    | ok files k => simp [CountersState.owed, Nat.add_assoc]
    | error e k =>
      have hnew : (k.table.files.keys.filter (· ∉ w.kernel.table.files.keys)).length ≤ 1 := by
        obtain hextends | ⟨dir, path, hextends, -⟩ := (hinit.2 e k hrun).1
        · rw [Accounts.filter_new hextends (by simp)]
          simp
        · rw [Accounts.filter_new hextends (by simp)]
          simp
      simp only [CountersState.owed, List.length_append]
      omega
  | cleanup i =>
    show (cleanup w i).owed ≤ w.owed + 0
    rw [cleanup]
    cases w.sessions[i]? with
    | none => exact le_refl _
    | some session =>
      have herase := List.length_eraseIdx_le w.sessions i
      simp only [CountersState.owed]
      omega

theorem owed_foldl_act (env : Environment) (w : CountersState) (actions : List CountersAction) :
    (actions.foldl (act env) w).owed ≤ w.owed + actions.countP CountersAction.isCreate := by
  induction actions generalizing w with
  | nil => exact le_refl _
  | cons action actions ih =>
    have hstep := owed_act env w action
    have hrest := ih (act env w action)
    have hcount : (action :: actions).countP CountersAction.isCreate =
        [action].countP CountersAction.isCreate + actions.countP CountersAction.isCreate := by
      rw [← List.countP_append, List.singleton_append]
    rw [List.foldl_cons]
    omega

/-- Constructors and cleanups in any order, whatever the kernel answers: an open file is from before and
is as it was, or it is of one instance that was not cleaned up, whose groups and counters are as they were
made, or it is the directory of a constructor that raised, and no constructor leaves more than one. -/
theorem run_accounts (env : Environment) (k₀ : Kernel) (actions : List CountersAction) :
    Accounts env k₀ (runActions env k₀ actions) ∧
      (runActions env k₀ actions).kernel.table.files.keys.Perm (k₀.table.files.keys ++
        (runActions env k₀ actions).leftovers ++
          (runActions env k₀ actions).sessions.flatMap (·.files.fds)) ∧
      (runActions env k₀ actions).owed ≤ actions.countP CountersAction.isCreate := by
  have h := (Accounts.start env k₀).foldl_act actions
  refine ⟨h, h.keys, ?_⟩
  have howed := owed_foldl_act env ⟨k₀, [], []⟩ actions
  have hstart : (⟨k₀, [], []⟩ : CountersState).owed = 0 := rfl
  rwa [hstart, Nat.zero_add] at howed

/-! ## Reading -/

section Reading

variable {counters : PerfCounters} {records : Cpu → GroupRecord} {rest files : Cpu → File}

/-- The record of a group of another size is refused. -/
theorem parseEventGroups_asserts (info : Option ScalingInfo) {names : List MetricName}
    {record : GroupRecord} (h : record.values.length ≠ names.length) (rest : File) :
    ∃ left, (parseEventGroups names info).run (record.bytes ++ rest) = .error .AssertionError left := by
  have hsize : record.nr.toInt ≠ names.length := by
    rw [record.nr_eq]
    exact_mod_cast h
  have hassert : (doIf (record.nr.toInt ≠ names.length)
      (throw .AssertionError : EStateM Exc File PUnit)) = throw .AssertionError := if_pos hsize
  simp only [parseEventGroups, GroupRecord.bytes, List.append_assoc]
  rw [bind_of_ok readNumber_run, hassert]
  exact ⟨_, rfl⟩

/-- The reader raises at the first cpu whose group has another size. -/
theorem readCpus_asserts {cpus pre : List Cpu} {acc : Totals} (hne : counters.eventNames ≠ [])
    (hnames : counters.eventNames.Nodup) (hcpus : cpus.Nodup) (hfiles : Holds cpus records rest files)
    (hacc : counters.Summed records pre acc)
    (hsize : ∃ cpu ∈ cpus, (records cpu).values.length ≠ counters.eventNames.length) :
    ∃ left, (cpus.foldlM counters.readCpu acc).run files = .error .AssertionError left := by
  induction cpus generalizing pre acc files with
  | nil =>
    obtain ⟨cpu, hcpu, -⟩ := hsize
    cases hcpu
  | cons cpu cpus ih =>
    obtain ⟨hcpu, hcpus⟩ := List.nodup_cons.mp hcpus
    have hfile := hfiles cpu List.mem_cons_self
    rw [List.foldlM_cons]
    by_cases hlen : (records cpu).values.length = counters.eventNames.length
    · obtain ⟨acc', files', hrun, hacc', -, hothers⟩ :=
        PerfCounters.readCpu_reads hne hnames hlen.symm hfile hacc
      rw [bind_of_ok hrun]
      refine ih hcpus (fun c hc => ?_) hacc' ?_
      · have hne' : c ∉ [cpu] := fun hmem => hcpu (List.mem_singleton.mp hmem ▸ hc)
        rw [hothers c hne']
        exact hfiles c (List.mem_cons_of_mem _ hc)
      · obtain ⟨c, hc, hbad⟩ := hsize
        obtain heq | hc := List.mem_cons.mp hc
        · rw [heq] at hbad
          exact absurd hlen hbad
        · exact ⟨c, hc, hbad⟩
    · obtain ⟨left, hleft⟩ := parseEventGroups_asserts (some getMeasurementsForScalingInfo) hlen (rest cpu)
      rw [← hfile] at hleft
      have hread : (counters.readCpu acc cpu).run files =
          .error .AssertionError (Function.update files cpu left) := by
        rw [PerfCounters.readCpu]
        exact bind_of_error (zoom_error_iff.mpr ⟨left, hleft, rfl⟩)
      exact ⟨_, bind_of_error hread⟩

theorem getMeasurements_asserts (hnames : counters.eventNames.Nodup)
    (hfiles : Holds counters.groupEventLeaderFiles records rest files)
    (hsize : ∃ cpu ∈ counters.groupEventLeaderFiles,
      (records cpu).values.length ≠ counters.eventNames.length) :
    ∃ left, counters.getMeasurements.run files = .error .AssertionError left := by
  obtain ⟨cpu, hcpu, hbad⟩ := hsize
  have hstart : counters.Summed records [] {} :=
    ⟨fun _ _ _ _ h => absurd h List.not_mem_nil, fun _ _ _ => rfl, rfl, rfl⟩
  obtain ⟨left, hleft⟩ := readCpus_asserts (PerfCounters.eventNames_ne_nil hcpu) hnames nodup_openEvents
    hfiles hstart ⟨cpu, hcpu, hbad⟩
  exact ⟨left, bind_of_error hleft⟩

end Reading

/-! ## Which events a cpu has -/

variable {session : PerfSession} {reads : List (List Cpu)} {names : List MetricName} {cpu : Cpu}

/-- Every list of online cpus had the same cpus. -/
def Steady (reads : List (List Cpu)) : Prop := ∀ cpus ∈ reads, ∀ cpus' ∈ reads, ∀ cpu ∈ cpus, cpu ∈ cpus'

theorem namesOn_openedOf (hreads : ∀ cpus ∈ reads, cpus.Nodup) :
    namesOn cpu (openedOf names reads) = ((names.zip reads).filter (cpu ∈ ·.2)).map Prod.fst := by
  have hpairs : ∀ pairs : List (MetricName × List Cpu), (∀ p ∈ pairs, p.2.Nodup) →
      namesOn cpu (pairs.flatMap fun p => p.2.map (p.1, ·)) =
        (pairs.filter (cpu ∈ ·.2)).map Prod.fst := by
    intro pairs hnodup
    induction pairs with
    | nil => rfl
    | cons p pairs ih =>
      have hrest := ih fun q hq => hnodup q (List.mem_cons_of_mem _ hq)
      have hone : namesOn cpu (p.2.map (p.1, ·)) = if cpu ∈ p.2 then [p.1] else [] := by
        rw [namesOn, List.filter_map, List.map_map]
        have hfilter : p.2.filter ((fun q : MetricName × Cpu => decide (q.2 = cpu)) ∘ (p.1, ·)) =
            if cpu ∈ p.2 then [cpu] else [] := by
          have hsame : p.2.filter ((fun q : MetricName × Cpu => decide (q.2 = cpu)) ∘ (p.1, ·)) =
              p.2.filter (· = cpu) := rfl
          rw [hsame, List.filter_eq]
          split
          · next hcpu =>
            rw [List.count_eq_one_of_mem (hnodup p List.mem_cons_self) hcpu]
            rfl
          · next hcpu =>
            rw [List.count_eq_zero.mpr hcpu]
            rfl
        rw [hfilter]
        split <;> rfl
      rw [List.flatMap_cons, namesOn_append, hrest, hone, List.filter_cons]
      by_cases hcpu : cpu ∈ p.2 <;> simp [hcpu]
  exact hpairs _ fun p hp => hreads p.2 (List.of_mem_zip hp).2

/-- A leader has every event just when every list of online cpus had its cpu. -/
theorem length_namesOn_iff (hlength : reads.length = names.length) (hreads : ∀ cpus ∈ reads, cpus.Nodup) :
    (namesOn cpu (openedOf names reads)).length = names.length ↔ ∀ cpus ∈ reads, cpu ∈ cpus := by
  have hzip : (names.zip reads).length = names.length := by rw [List.length_zip, hlength, min_self]
  have hsnd : (names.zip reads).map Prod.snd = reads := List.map_snd_zip hlength.le
  rw [namesOn_openedOf hreads, List.length_map, ← hzip, List.length_filter_eq_length_iff]
  constructor
  · intro h cpus hcpus
    rw [← hsnd] at hcpus
    obtain ⟨p, hp, rfl⟩ := List.mem_map.mp hcpus
    exact of_decide_eq_true (h p hp)
  · exact fun h p hp => decide_eq_true (h p.2 (List.of_mem_zip hp).2)

theorem namesOn_eq (hlength : reads.length = names.length) (hreads : ∀ cpus ∈ reads, cpus.Nodup)
    (hcpu : ∀ cpus ∈ reads, cpu ∈ cpus) : namesOn cpu (openedOf names reads) = names := by
  rw [namesOn_openedOf hreads, List.filter_eq_self.mpr fun p hp =>
    decide_eq_true (hcpu p.2 (List.of_mem_zip hp).2)]
  exact List.map_fst_zip hlength.ge

/-- The cpus that some list had. -/
theorem namesOn_ne_nil_iff (hlength : reads.length = names.length) (hreads : ∀ cpus ∈ reads, cpus.Nodup) :
    namesOn cpu (openedOf names reads) ≠ [] ↔ ∃ cpus ∈ reads, cpu ∈ cpus := by
  have hsnd : (names.zip reads).map Prod.snd = reads := List.map_snd_zip hlength.le
  rw [namesOn_openedOf hreads, Ne, List.map_eq_nil_iff, List.filter_eq_nil_iff]
  constructor
  · intro h
    by_contra hnone
    exact h fun p hp hcpu => hnone ⟨p.2, (List.of_mem_zip hp).2, of_decide_eq_true hcpu⟩
  · rintro ⟨cpus, hcpus, hcpu⟩ h
    rw [← hsnd] at hcpus
    obtain ⟨p, hp, rfl⟩ := List.mem_map.mp hcpus
    exact h p hp (decide_eq_true hcpu)

section Live

variable {codename : CPUCodeName} {dir l : Fd} {members : List (Fd × OpenFile)}

theorem Live.leader_iff (h : Live env k session reads) (hreads : ∀ cpus ∈ reads, cpus.Nodup) :
    cpu ∈ session.files.groupEventLeaderFiles.keys ↔ ∃ cpus ∈ reads, cpu ∈ cpus := by
  have hgrouped := h.groups cpu
  rw [← namesOn_ne_nil_iff h.length hreads, Dict.mem_keys_iff_get?]
  rw [Grouped] at hgrouped
  cases hleader : session.files.groupEventLeaderFiles.get? cpu with
  | none =>
    rw [hleader] at hgrouped
    simp [hgrouped]
  | some l =>
    rw [hleader] at hgrouped
    obtain ⟨⟨first, -, hfirst, -, -⟩, -⟩ := hgrouped
    refine iff_of_true ⟨l, rfl⟩ fun hnil => ?_
    rw [hnil] at hfirst
    cases hfirst

/-- The group of a leader. -/
theorem Live.group (h : Live env k session reads)
    (hleader : session.files.groupEventLeaderFiles.get? cpu = some l) :
    GroupOf session.cpuCodename session.files.cgroupFd cpu l
      (namesOn cpu (openedOf session.eventNames reads)) (k.table.group l) := by
  have hgrouped := h.groups cpu
  rw [Grouped, hleader] at hgrouped
  exact hgrouped

/-- The event at a place of a group is the one of the name at that place. -/
theorem GroupOf.get (h : GroupOf codename dir cpu l names members) {i : ℕ} {name : MetricName}
    (hname : names[i]? = some name) : ∃ fd e leader, members[i]? = some (fd, .event e) ∧
      eventFor codename dir cpu leader name = .ok e := by
  obtain ⟨⟨first, leader, hfirst, hleader, e, he, rfl⟩, hmembers⟩ := h
  cases names with
  | nil => cases hfirst
  | cons first' names =>
    cases members with
    | nil => cases hleader
    | cons p members =>
      cases hfirst
      cases hleader
      cases i with
      | zero =>
        cases hname
        exact ⟨l, e, none, rfl, he⟩
      | succ i =>
        obtain ⟨hi, rfl⟩ := List.getElem?_eq_some_iff.mp hname
        have hi' : i < members.length := hmembers.length_eq ▸ (by simpa using hi)
        obtain ⟨e', he', hfile⟩ := hmembers.get (by simpa using hi) hi'
        refine ⟨members[i].1, e', some l, ?_, by simpa using he'⟩
        rw [List.getElem?_cons_succ, List.getElem?_eq_getElem hi']
        exact congrArg some (Prod.ext rfl hfile)

end Live

/-! ## When a constructor returns -/

theorem mem_openedOf {p : MetricName × List Cpu} (hp : p ∈ names.zip reads) (hcpu : cpu ∈ p.2) :
    p.1 ∈ namesOn cpu (openedOf names reads) := by
  have hmem : (p.1, cpu) ∈ openedOf names reads :=
    List.mem_flatMap.mpr ⟨p, hp, List.mem_map.mpr ⟨cpu, hcpu, rfl⟩⟩
  exact List.mem_map.mpr ⟨(p.1, cpu), List.mem_filter.mpr ⟨hmem, decide_eq_true rfl⟩, rfl⟩

/-- The attributes of every event of a live instance were created, if some cpu was online then. -/
theorem Live.creatable (h : Live env k session reads) (hcpus : ∀ cpus, Online env cpus → cpus ≠ [])
    {name : MetricName} (hname : name ∈ session.eventNames) : Creatable session.cpuCodename name := by
  have hfst : (session.eventNames.zip reads).map Prod.fst = session.eventNames :=
    List.map_fst_zip h.length.ge
  rw [← hfst] at hname
  obtain ⟨p, hp, rfl⟩ := List.mem_map.mp hname
  obtain ⟨cpu, _, hcons⟩ := List.exists_cons_of_ne_nil (hcpus p.2 (h.online p.2 (List.of_mem_zip hp).2))
  have hon := mem_openedOf hp (hcons ▸ List.mem_cons_self)
  have hgrouped := h.groups cpu
  rw [Grouped] at hgrouped
  cases hleader : session.files.groupEventLeaderFiles.get? cpu with
  | none =>
    rw [hleader] at hgrouped
    rw [hgrouped] at hon
    cases hon
  | some l =>
    obtain ⟨i, hi, hget⟩ := List.getElem_of_mem hon
    obtain ⟨fd, e, leader, -, he⟩ := (h.group hleader).get (List.getElem?_eq_some_iff.mpr ⟨hi, hget⟩)
    exact createEventAttributes_ok_iff.mp ⟨_, (eventFor_ok he).2.2⟩

/-- On a host that refuses nothing, the names that the filter let through can be opened just when the
texts of the raw events can be read. -/
theorem initCounters_returns_iff (hserves : env.Serves) (hcpus : ∀ cpus, Online env cpus → cpus ≠ [])
    {requested : List MetricName} {codename : CPUCodeName}
    (hfilter : filterOutEventNamesForCpu requested codename = .ok names) (cgroupPath : String) :
    (∃ files k', (initCounters env cgroupPath names codename).run k = .ok files k') ↔
      Str.startsWith "/" cgroupPath = true ∧ ∀ name ∈ requested, IsRaw name →
        ∃ config, EventNames.parseRawEventName name = .ok config := by
  have hinit := initCounters_wp env k cgroupPath names codename true
  obtain ⟨-, rfl⟩ := filterOutEventNamesForCpu_ok_iff.mp hfilter
  constructor
  · rintro ⟨files, k', hrun⟩
    obtain ⟨-, reads, hlive⟩ := hinit.ok hrun
    refine ⟨?_, fun name hname hraw => ?_⟩
    · by_contra hpath
      rw [initCounters, if_neg hpath] at hrun
      cases hrun
    · have hpasses : name ∈ requested.filter (Passes codename ·) :=
        List.mem_filter.mpr ⟨hname, decide_eq_true (Or.inr hraw)⟩
      obtain htabled | ⟨-, hparse⟩ := hlive.creatable hcpus hpasses
      · obtain hhard | ⟨cpus, hget, -⟩ := htabled
        · exact absurd hhard hraw.1
        · exact absurd (Dict.mem_keys_iff_get?.mpr ⟨cpus, hget⟩) hraw.2.1
      · exact hparse
  · rintro ⟨hpath, hraws⟩
    cases hrun : (initCounters env cgroupPath (requested.filter (Passes codename ·)) codename).run k with
    | ok files k' => exact ⟨files, k', rfl⟩
    | error e k' =>
      refine absurd ⟨hserves, hpath, fun name hname => ?_⟩ (hinit.error hrun).2
      obtain ⟨hrequested, hpasses⟩ := List.mem_filter.mp hname
      exact (of_decide_eq_true hpasses).imp_right fun hraw => ⟨hraw, hraws name hrequested hraw⟩

/-! ## What is read -/

/-- The reader of an instance. -/
structure ReaderOf (counters : PerfCounters) (session : PerfSession) : Prop where
  eventNames : counters.eventNames = session.eventNames
  aggregate : counters.aggregateForAllCpusWithSum = session.aggregateForAllCpusWithSum
  leaders : counters.groupEventLeaderFiles = session.files.groupEventLeaderFiles.keys

/-- What the kernel answers to a read of the leaders: what each event of the group counted, in the order
of the group. -/
def Answers (k : Kernel) (session : PerfSession) (counted : Fd → Struct.Word × Struct.Word)
    (records : Cpu → GroupRecord) : Prop :=
  ∀ cpu l, session.files.groupEventLeaderFiles.get? cpu = some l →
    (records cpu).values = (k.table.group l).map fun p => counted p.1

/-- The value at each place is what was counted by the event that was opened for the name there. -/
def Attributed (k : Kernel) (session : PerfSession) (counted : Fd → Struct.Word × Struct.Word)
    (records : Cpu → GroupRecord) : Prop :=
  ∀ i name, session.eventNames[i]? = some name → ∀ cpu ∈ session.files.groupEventLeaderFiles.keys,
    ∃ fd e leader, k.table.files.get? fd = some (.event e) ∧
      eventFor session.cpuCodename session.files.cgroupFd cpu leader name = .ok e ∧
      (records cpu).count i =
        scaled (counted fd).1.toInt (records cpu).timeEnabled.toInt (records cpu).timeRunning.toInt

theorem GroupRecord.count_eq {record : GroupRecord} {i : ℕ} {value : Struct.Word × Struct.Word}
    (h : record.values[i]? = some value) :
    record.count i = scaled value.1.toInt record.timeEnabled.toInt record.timeRunning.toInt := by
  rw [GroupRecord.count, GroupRecord.counts, List.getD_eq_getElem?_getD, List.getElem?_map, h]
  rfl

/-- A live instance whose lists of online cpus were all the same reads every event under its name and
cpu, as the event that was opened for them counted. When the lists were not all the same, it raises. -/
theorem getMeasurements_live {counted : Fd → Struct.Word × Struct.Word} {counters : PerfCounters}
    {records : Cpu → GroupRecord} {rest files : Cpu → File}
    (hlive : Live env k session reads) (hreads : ∀ cpus ∈ reads, cpus.Nodup)
    (hnames : session.eventNames.Nodup) (hreader : ReaderOf counters session)
    (hanswers : Answers k session counted records)
    (hfiles : Holds counters.groupEventLeaderFiles records rest files) :
    (Steady reads → counters.Decodes records rest files ∧ Attributed k session counted records) ∧
      (¬Steady reads → ∃ left, counters.getMeasurements.run files = .error .AssertionError left) := by
  have hsize : ∀ cpu ∈ session.files.groupEventLeaderFiles.keys,
      (records cpu).values.length = (namesOn cpu (openedOf session.eventNames reads)).length := by
    intro cpu hcpu
    obtain ⟨l, hl⟩ := Dict.mem_keys_iff_get?.mp hcpu
    rw [hanswers cpu l hl, List.length_map, (hlive.group hl).length]
  constructor
  · intro hsteady
    have hall : ∀ cpu ∈ session.files.groupEventLeaderFiles.keys, ∀ cpus ∈ reads, cpu ∈ cpus := by
      intro cpu hcpu cpus hcpus
      obtain ⟨cpus', hcpus', hmem⟩ := (hlive.leader_iff hreads).mp hcpu
      exact hsteady cpus' hcpus' cpus hcpus cpu hmem
    refine ⟨PerfCounters.decodes ⟨hreader.eventNames ▸ hnames, fun cpu hcpu => ?_, hfiles⟩,
      fun i name hname cpu hcpu => ?_⟩
    · rw [hreader.leaders] at hcpu
      rw [hsize cpu hcpu, namesOn_eq hlive.length hreads (hall cpu hcpu), hreader.eventNames]
    · obtain ⟨l, hl⟩ := Dict.mem_keys_iff_get?.mp hcpu
      have hgroup := hlive.group hl
      rw [namesOn_eq hlive.length hreads (hall cpu hcpu)] at hgroup
      obtain ⟨fd, e, leader, hmember, he⟩ := hgroup.get hname
      have hfile : (fd, OpenFile.event e) ∈ k.table.files.items :=
        (mem_group.mp (List.mem_of_getElem? hmember)).1
      refine ⟨fd, e, leader, Dict.get?_eq_some_iff.mpr hfile, he, GroupRecord.count_eq ?_⟩
      rw [hanswers cpu l hl, List.getElem?_map, hmember]
      rfl
  · intro hunsteady
    simp only [Steady, not_forall] at hunsteady
    obtain ⟨cpus, hcpus, cpus', hcpus', cpu, hcpu, hcpu'⟩ := hunsteady
    have hleader := (hlive.leader_iff hreads).mpr ⟨cpus, hcpus, hcpu⟩
    refine getMeasurements_asserts (hreader.eventNames ▸ hnames) hfiles ⟨cpu, hreader.leaders ▸ hleader, ?_⟩
    rw [hsize cpu hleader, hreader.eventNames, Ne, length_namesOn_iff hlive.length hreads]
    exact fun h => hcpu' (h cpus' hcpus')

/-- What an instance reads is what was counted for its own events, under their names and cpus; it raises
when the cpus that were online changed while it was made. -/
def Measures (env : Environment) (k : Kernel) (session : PerfSession) : Prop :=
  ∃ reads : List (List Cpu), reads.length = session.eventNames.length ∧
    (∀ cpus ∈ reads, Online env cpus) ∧
    ∀ (counted : Fd → Struct.Word × Struct.Word) (counters : PerfCounters)
      (records : Cpu → GroupRecord) (rest files : Cpu → File),
      ReaderOf counters session → Answers k session counted records →
      Holds counters.groupEventLeaderFiles records rest files →
        (Steady reads → counters.Decodes records rest files ∧ Attributed k session counted records) ∧
        (¬Steady reads → ∃ left, counters.getMeasurements.run files = .error .AssertionError left)

/-- Two cpus, and no call fails. -/
def twoCpus : Environment where
  fresh fds := fds.foldr max 0 + 1
  fresh_not_mem fds h := by
    have hle : ∀ (fds : List Fd), ∀ fd ∈ fds, fd ≤ fds.foldr max 0 := by
      intro fds
      induction fds with
      | nil => simp
      | cons x fds ih =>
        intro fd hfd
        obtain rfl | hfd := List.mem_cons.mp hfd
        · exact le_max_left _ _
        · exact (ih fd hfd).trans (le_max_right _ _)
    exact absurd (hle fds _ h) (Nat.not_succ_le_self _)
  openDirectory _ := none
  online _ := .ok "0-1\n"
  perfEventOpen _ := none
  ioctlFails _ := false
  strerror _ := "error"

/-- An instance that counts two events. -/
def cyclesAndInstructions : List CountersAction :=
  [.create "/a" ["task_cycles", "task_instructions"] .skylake true]

theorem prints_twoCpus : twoCpus.Prints := by
  intro i text htext
  cases htext
  exact ⟨[⟨0, 1, by decide⟩], by simp, List.pairwise_singleton _ _, by decide⟩

theorem serves_twoCpus : twoCpus.Serves :=
  ⟨fun _ => rfl, fun _ => ⟨"0-1\n", [0, 1], rfl, by decide +kernel⟩, fun _ => rfl, fun _ => rfl⟩

/-- An event that the cpu does not have is left out, and a raw one is kept. -/
theorem initCounters_returns_iff_twoCpus :
    (∃ files k', (initCounters twoCpus "/a" ["task_cycles", "x__r0010"] .skylake).run ⟨∅, [], 0⟩ =
      .ok files k') ↔ Str.startsWith "/" "/a" = true ∧
        ∀ name ∈ ["task_cycles", "task_mem_load_retired_local_pmm", "x__r0010"], IsRaw name →
          ∃ config, EventNames.parseRawEventName name = .ok config := by
  refine initCounters_returns_iff serves_twoCpus (fun cpus honline => ?_) (by decide +kernel) "/a"
  obtain ⟨i, text, htext, hparse⟩ := honline
  cases htext
  have htwo : parseOnlineCpusString "0-1\n" = .ok [0, 1] := by decide +kernel
  rw [htwo] at hparse
  cases hparse
  exact List.cons_ne_nil _ _

end Wca.Perf
