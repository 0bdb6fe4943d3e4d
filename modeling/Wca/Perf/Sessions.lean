import Wca.Perf.Opening

/-!
# What a constructor leaves

Between two calls of `_open_for_cpu` the table has the files from before, the directory and what was
opened since, and the group of each cpu has the events that were opened for it, in their order
(`Opens`). One call adds one event to one group, or raises and adds none (`openEventForCpu_wp`).
-/

namespace Wca.Perf

open Py Os Table

variable {env : Environment} {codename : CPUCodeName} {cpu : Cpu} {name : MetricName} {dir : Fd}
  {path : String} {k k₀ : Kernel} {s : Opening} {opened : List (MetricName × Cpu)}

/-! ## The instance -/

namespace PerfFiles

/-- The descriptors of an instance. -/
def fds (self : PerfFiles) : List Fd :=
  self.cgroupFd :: (self.groupEventLeaderFiles.values ++ self.eventFiles)

variable {self : PerfFiles} {fd : Fd}

theorem cgroupFd_add : (self.add cpu fd).cgroupFd = self.cgroupFd := by
  rw [add]
  split <;> rfl

theorem fds_add : (self.add cpu fd).fds.Perm (self.fds ++ [fd]) := by
  rw [add]
  split
  · next hnone =>
    have hcpu := Dict.get?_eq_none_iff.mp (Option.isNone_iff_eq_none.mp hnone)
    simp only [fds, Dict.values_set_of_not_mem hcpu, List.cons_append, List.append_assoc]
    have hswap : ([fd] ++ self.eventFiles).Perm (self.eventFiles ++ [fd]) := List.perm_append_comm
    exact (hswap.append_left _).cons _
  · simp [fds]

theorem leader_add {cpu' : Cpu} : (self.add cpu fd).groupEventLeaderFiles.get? cpu' =
    if cpu' = cpu ∧ self.groupEventLeaderFiles.get? cpu = none then some fd
    else self.groupEventLeaderFiles.get? cpu' := by
  rw [add]
  cases hleader : self.groupEventLeaderFiles.get? cpu with
  | none => simp [Dict.get?_set]
  | some l => simp

theorem leader_mem_fds {l : Fd} (h : self.groupEventLeaderFiles.get? cpu = some l) : l ∈ self.fds := by
  have hvalue : l ∈ self.groupEventLeaderFiles.values :=
    Dict.mem_values.mpr ⟨cpu, Dict.get?_eq_some_iff.mp h⟩
  exact List.mem_cons_of_mem _ (List.mem_append_left _ hvalue)

end PerfFiles

/-! ## Groups -/

/-- The event that `_open_for_cpu` opens. -/
def eventFor (codename : CPUCodeName) (dir : Fd) (cpu : Cpu) (leader : Option Fd) (name : MetricName) :
    Except OpenExc PerfEvent := do
  let attr ← createEventAttributes name leader.isNone codename
  return {
    attr, cpu
    pid := if leader.isNone then some dir else none
    groupFd := leader
    flags := if leader.isNone then perfFlagPidCgroup ||| perfFlagFdCloexec else perfFlagFdCloexec }

/-- A file that was opened for the name. -/
def OpenedFor (codename : CPUCodeName) (dir : Fd) (cpu : Cpu) (leader : Option Fd) (name : MetricName)
    (file : OpenFile) : Prop :=
  ∃ e, eventFor codename dir cpu leader name = .ok e ∧ file = .event e

/-- The first event leads the group and the others hang on it, each with its own attributes. -/
structure GroupOf (codename : CPUCodeName) (dir : Fd) (cpu : Cpu) (l : Fd) (names : List MetricName)
    (group : List (Fd × OpenFile)) : Prop where
  leads : ∃ name file, names.head? = some name ∧ group.head? = some (l, file) ∧
    OpenedFor codename dir cpu none name file
  members : List.Forall₂ (fun name p => OpenedFor codename dir cpu (some l) name p.2) names.tail group.tail

theorem eventFor_ok {leader : Option Fd} {e : PerfEvent} (h : eventFor codename dir cpu leader name = .ok e) :
    e.cpu = cpu ∧ e.groupFd = leader ∧ createEventAttributes name leader.isNone codename = .ok e.attr := by
  obtain ⟨attr, hattr, he⟩ := except_bind_ok_iff.mp h
  cases he
  exact ⟨rfl, rfl, hattr⟩

theorem groupOf_single {l : Fd} {file : OpenFile} (h : OpenedFor codename dir cpu none name file) :
    GroupOf codename dir cpu l [name] [(l, file)] := ⟨⟨name, file, rfl, rfl, h⟩, .nil⟩

theorem GroupOf.append {l fd : Fd} {names : List MetricName} {group : List (Fd × OpenFile)}
    {file : OpenFile} (h : GroupOf codename dir cpu l names group)
    (hfile : OpenedFor codename dir cpu (some l) name file) :
    GroupOf codename dir cpu l (names ++ [name]) (group ++ [(fd, file)]) := by
  obtain ⟨⟨first, leader, hfirst, hleader, hopened⟩, hmembers⟩ := h
  cases names with
  | nil => cases hfirst
  | cons first' names =>
    cases group with
    | nil => cases hleader
    | cons leader' group =>
      exact ⟨⟨first, leader, hfirst, hleader, hopened⟩,
        List.rel_append hmembers (.cons hfile .nil)⟩

theorem GroupOf.length {l : Fd} {names : List MetricName} {group : List (Fd × OpenFile)}
    (h : GroupOf codename dir cpu l names group) : names.length = group.length := by
  obtain ⟨⟨first, leader, hfirst, hleader, -⟩, hmembers⟩ := h
  cases names with
  | nil => cases hfirst
  | cons first' names =>
    cases group with
    | nil => cases hleader
    | cons leader' group => exact congrArg (· + 1) hmembers.length_eq

/-- The events that were opened for a cpu. -/
def namesOn (cpu : Cpu) (opened : List (MetricName × Cpu)) : List MetricName :=
  (opened.filter (·.2 = cpu)).map Prod.fst

theorem namesOn_append (cpu : Cpu) (opened opened' : List (MetricName × Cpu)) :
    namesOn cpu (opened ++ opened') = namesOn cpu opened ++ namesOn cpu opened' := by
  rw [namesOn, List.filter_append, List.map_append, namesOn, namesOn]

theorem namesOn_single {cpu' : Cpu} : namesOn cpu [(name, cpu')] = if cpu' = cpu then [name] else [] := by
  rw [namesOn, List.filter_singleton]
  by_cases h : cpu' = cpu <;> simp [h]

/-! ## The invariant of the constructor -/

/-- The cpu has no leader and no event, or the group of its leader has the events. -/
def Grouped (codename : CPUCodeName) (files : PerfFiles) (t : Table OpenFile) (cpu : Cpu)
    (names : List MetricName) : Prop :=
  match files.groupEventLeaderFiles.get? cpu with
  | none => names = []
  | some l => GroupOf codename files.cgroupFd cpu l names (t.group l)

/-- From `k₀` on, the directory was opened and then the events of the cpus. -/
structure Opens (k₀ : Kernel) (codename : CPUCodeName) (path : String) (opened : List (MetricName × Cpu))
    (s : Opening) : Prop where
  keys : s.kernel.table.files.keys.Perm (k₀.table.files.keys ++ s.files.fds)
  kept : Same k₀.table s.kernel.table k₀.table.files.keys
  directory : s.kernel.table.files.get? s.files.cgroupFd = some (.directory path)
  groups : ∀ cpu, Grouped codename s.files s.kernel.table cpu (namesOn cpu opened)
  counting : ∀ fd ∈ k₀.table.files.keys, fd ∈ s.kernel.counting ↔ fd ∈ k₀.counting

namespace Opens

theorem nodup (h : Opens k₀ codename path opened s) : (k₀.table.files.keys ++ s.files.fds).Nodup :=
  h.keys.nodup_iff.mp s.kernel.table.files.nodup

theorem mem_keys (h : Opens k₀ codename path opened s) {x : Fd} (hx : x ∈ s.files.fds) :
    x ∈ s.kernel.table.files.keys := h.keys.mem_iff.mpr (List.mem_append_right _ hx)

/-- A call that leaves the table alone. -/
theorem of_table_eq (h : Opens k₀ codename path opened s) (htable : k.table = s.kernel.table)
    (hcounting : ∀ fd ∈ k₀.table.files.keys, fd ∈ k.counting ↔ fd ∈ s.kernel.counting) :
    Opens k₀ codename path opened { s with kernel := k } where
  keys := by
    show k.table.files.keys.Perm _
    rw [htable]
    exact h.keys
  kept := by
    show Same k₀.table k.table _
    rw [htable]
    exact h.kept
  directory := by
    show k.table.files.get? _ = _
    rw [htable]
    exact h.directory
  groups := by
    show ∀ cpu, Grouped codename s.files k.table cpu _
    rw [htable]
    exact h.groups
  counting fd hfd := (hcounting fd hfd).trans (h.counting fd hfd)

theorem leader_injective (h : Opens k₀ codename path opened s) {cpu' : Cpu} {l : Fd}
    (hl : s.files.groupEventLeaderFiles.get? cpu = some l)
    (hl' : s.files.groupEventLeaderFiles.get? cpu' = some l) : cpu = cpu' := by
  have hfds : s.files.fds.Nodup := (List.nodup_append.mp h.nodup).2.1
  have hvalues := (List.nodup_append.mp (List.nodup_cons.mp hfds).2).1
  exact Dict.eq_of_get?_of_nodup_values hvalues hl hl'

/-- The event joins the group of its cpu, and no other. -/
theorem grouped_add (h : Opens k₀ codename path opened s) {fd : Fd} {e : PerfEvent}
    (he : eventFor codename s.files.cgroupFd cpu (s.files.groupEventLeaderFiles.get? cpu) name = .ok e)
    {hfd : fd ∉ s.kernel.table.files.keys}
    {hon : ∀ l, Hanging.on (OpenFile.event e) = some l → l ∈ s.kernel.table.files.keys} (cpu' : Cpu) :
    Grouped codename (s.files.add cpu fd) (s.kernel.table.openAt fd (.event e) hfd hon) cpu'
      (namesOn cpu' (opened ++ [(name, cpu)])) := by
  have hgroupFd : Hanging.on (OpenFile.event e) =
      s.files.groupEventLeaderFiles.get? cpu := (eventFor_ok he).2.1
  have hgrouped := h.groups cpu'
  rw [Grouped] at hgrouped ⊢
  rw [PerfFiles.leader_add, PerfFiles.cgroupFd_add, namesOn_append, namesOn_single]
  by_cases hcpu : cpu' = cpu
  · rw [hcpu] at hgrouped ⊢
    cases hleader : s.files.groupEventLeaderFiles.get? cpu with
    | none =>
      rw [hleader] at hgrouped he
      rw [if_pos ⟨rfl, rfl⟩, if_pos rfl]
      simp only at hgrouped ⊢
      rw [group_openAt_self, hgrouped]
      exact groupOf_single ⟨e, he, rfl⟩
    | some l =>
      rw [hleader] at hgrouped he hgroupFd
      rw [if_neg fun hand => (nomatch hand.2), if_pos rfl]
      simp only at hgrouped ⊢
      rw [group_openAt, if_pos (Or.inr hgroupFd)]
      exact hgrouped.append ⟨e, he, rfl⟩
  · rw [if_neg fun hand => hcpu hand.1, if_neg (Ne.symm hcpu), List.append_nil]
    cases hleader : s.files.groupEventLeaderFiles.get? cpu' with
    | none => rwa [hleader] at hgrouped
    | some l =>
      rw [hleader] at hgrouped
      simp only at hgrouped ⊢
      rw [group_openAt, if_neg, List.append_nil]
      · exact hgrouped
      · rintro (heq | hon')
        · exact hfd (heq ▸ h.mem_keys (PerfFiles.leader_mem_fds hleader))
        · exact hcpu (h.leader_injective hleader (hgroupFd.symm.trans hon'))

/-- An event that was opened joins what was opened. -/
theorem add (h : Opens k₀ codename path opened s) {fd : Fd} {e : PerfEvent}
    (he : eventFor codename s.files.cgroupFd cpu (s.files.groupEventLeaderFiles.get? cpu) name = .ok e)
    (hfd : fd ∉ s.kernel.table.files.keys)
    (hon : ∀ l, Hanging.on (OpenFile.event e) = some l → l ∈ s.kernel.table.files.keys)
    (htable : k.table = s.kernel.table.openAt fd (.event e) hfd hon)
    (hcounting : k.counting = s.kernel.counting) :
    Opens k₀ codename path (opened ++ [(name, cpu)]) ⟨s.files.add cpu fd, k⟩ := by
  have hgroupFd : e.groupFd = s.files.groupEventLeaderFiles.get? cpu := (eventFor_ok he).2.1
  have hleader : ∀ l, Hanging.on (OpenFile.event e) = some l → l ∈ s.files.fds := fun l hl =>
    PerfFiles.leader_mem_fds (hgroupFd.symm.trans hl)
  have hold : ∀ x ∈ k₀.table.files.keys, x ∉ s.files.fds := fun x hx hin =>
    List.disjoint_of_nodup_append h.nodup hx hin
  have hfresh : fd ∉ k₀.table.files.keys := fun hin =>
    hfd (h.keys.mem_iff.mpr (List.mem_append_left _ hin))
  refine ⟨?_, ?_, ?_, fun cpu' => ?_, fun x hx => by rw [hcounting, h.counting x hx]⟩
  · rw [htable, keys_openAt]
    refine (h.keys.append_right [fd]).trans ?_
    rw [List.append_assoc]
    exact PerfFiles.fds_add.symm.append_left _
  · rw [htable]
    exact h.kept.trans (same_openAt hfresh fun l hl hon' => hold l hl (hleader l hon'))
  · have hdir : s.files.cgroupFd ≠ fd := fun heq => hfd (heq ▸ h.mem_keys List.mem_cons_self)
    rw [htable, PerfFiles.cgroupFd_add, get?_openAt, if_neg hdir]
    exact h.directory
  · rw [htable]
    exact h.grouped_add he cpu'

end Opens

/-! ## One event -/

theorem wp_onKernel {α : Type} {x : EStateM OpenExc Kernel α} {Q : α → Opening → Prop}
    {E : OpenExc → Opening → Prop} : wp (onKernel x) Q E s ↔
      wp x (fun a k => Q a { s with kernel := k }) (fun e k => E e { s with kernel := k }) s.kernel := by
  unfold wp
  rw [onKernel, zoom_run]
  cases x.run s.kernel <;> rfl

/-- The kernel refuses nothing, and the list of online cpus can be read. -/
structure Environment.Serves (env : Environment) : Prop where
  openDirectory : ∀ i, env.openDirectory i = none
  online : ∀ i, ∃ text cpus, env.online i = .ok text ∧ parseOnlineCpusString text = .ok cpus
  perfEventOpen : ∀ i, env.perfEventOpen i = none
  ioctlFails : ∀ i, env.ioctlFails i = false

theorem wp_perfEventOpen {attr : PerfEventAttr} {pid groupFd : Option Fd} {flags : ℕ}
    {Q : Except ℕ Fd → Kernel → Prop} {E : OpenExc → Kernel → Prop}
    (herror : ∀ errno, ¬(env.Serves ∧ ∀ l ∈ groupFd, l ∈ k.table.files.keys) → Q (.error errno) k.tick)
    (hok : ∀ fd hfd hon, Q (.ok fd)
      { k.tick with table := k.table.openAt fd (.event { attr, pid, cpu, groupFd, flags }) hfd hon }) :
    wp (perfEventOpen env attr pid cpu groupFd flags) Q E k := by
  rw [perfEventOpen, wp_bind, wp_modify, wp_bind, wp_get]
  cases hanswer : env.perfEventOpen k.tick.calls with
  | some errno =>
    refine herror errno fun hand => ?_
    rw [hand.1.perfEventOpen] at hanswer
    cases hanswer
  | none =>
    simp only
    split
    · next h => exact hok _ (env.fresh_not_mem _) h
    · next h => exact herror ebadf fun hand => h hand.2

/-- The attributes of the event can be created. -/
def Creatable (codename : CPUCodeName) (name : MetricName) : Prop :=
  Tabled name codename ∨ IsRaw name ∧ ∃ config, EventNames.parseRawEventName name = .ok config

/-- The specification of `_open_for_cpu`: the event is opened, or nothing is. -/
theorem openEventForCpu_wp (h : Opens k₀ codename path opened s) :
    wp (openEventForCpu env codename name cpu)
      (fun _ => Opens k₀ codename path (opened ++ [(name, cpu)]))
      (fun _ t => Opens k₀ codename path opened t ∧ ¬(env.Serves ∧ Creatable codename name)) s := by
  rw [openEventForCpu, wp_bind, wp_get, wp_bind, wp_liftExcept]
  refine ⟨fun attr hattr => ?_, fun e he => ⟨h, fun hand => ?_⟩⟩
  swap
  · obtain ⟨attr, hattr⟩ := createEventAttributes_ok_iff.mpr hand.2
    rw [hattr] at he
    cases he
  rw [wp_bind, wp_onKernel]
  refine wp_perfEventOpen (fun errno hrefused => ?_) fun fd hfd hon => ?_
  · rw [wp_bind, wp_liftExcept]
    have hleader : ∀ l ∈ s.files.groupEventLeaderFiles.get? cpu, l ∈ s.kernel.table.files.keys :=
      fun l hl => h.mem_keys (PerfFiles.leader_mem_fds hl)
    refine ⟨fun fd hfd => ?_, fun _ _ => ⟨h.of_table_eq rfl fun _ _ => Iff.rfl,
      fun hand => hrefused ⟨hand.1, hleader⟩⟩⟩
    rw [createFileFromFd] at hfd
    split at hfd <;> cases hfd
  · rw [wp_bind, wp_liftExcept]
    refine ⟨fun fd' hfd' => ?_, fun _ he => (nomatch he)⟩
    cases hfd'
    have he : eventFor codename s.files.cgroupFd cpu (s.files.groupEventLeaderFiles.get? cpu) name = .ok _ :=
      except_bind_ok_iff.mpr ⟨attr, hattr, rfl⟩
    exact h.add (k := { s.kernel.tick with table := _ }) he hfd hon rfl rfl

/-! ## All events -/

/-- The cpus are what a reading of the file gave. -/
def Online (env : Environment) (cpus : List Cpu) : Prop :=
  ∃ i text, env.online i = .ok text ∧ parseOnlineCpusString text = .ok cpus

/-- The events on the cpus that were online when their turn came. -/
def openedOf (names : List MetricName) (reads : List (List Cpu)) : List (MetricName × Cpu) :=
  (names.zip reads).flatMap fun p => p.2.map (p.1, ·)

theorem openedOf_append {names : List MetricName} {reads : List (List Cpu)} {cpus : List Cpu}
    (h : names.length = reads.length) :
    openedOf (names ++ [name]) (reads ++ [cpus]) = openedOf names reads ++ cpus.map (name, ·) := by
  rw [openedOf, List.zip_append h, List.flatMap_append, openedOf]
  simp

theorem getOnlineCpus_wp : wp (getOnlineCpus env) (fun cpus k' => k' = k.tick ∧ Online env cpus)
    (fun _ k' => k' = k.tick ∧ ¬env.Serves) k := by
  rw [getOnlineCpus, wp_bind, wp_modify, wp_bind, wp_get]
  cases honline : env.online k.tick.calls with
  | error errno =>
    refine ⟨rfl, fun hserves => ?_⟩
    obtain ⟨text, cpus, htext, -⟩ := hserves.online k.tick.calls
    rw [htext] at honline
    cases honline
  | ok text =>
    simp only
    rw [wp_liftExcept]
    cases hparse : parseOnlineCpusString text with
    | error e =>
      refine ⟨fun cpus hcpus => (by cases hcpus), fun _ _ => ⟨rfl, fun hserves => ?_⟩⟩
      obtain ⟨text', cpus, htext, hcpus⟩ := hserves.online k.tick.calls
      cases honline.symm.trans htext
      rw [hparse] at hcpus
      cases hcpus
    | ok cpus' =>
      refine ⟨fun cpus hcpus => ?_, fun _ he => (by cases he)⟩
      cases hcpus
      exact ⟨rfl, _, text, honline, hparse⟩

/-- One turn of `_open`. -/
theorem openEvent_wp (h : Opens k₀ codename path opened s) :
    wp (openEvent env codename name)
      (fun _ t => ∃ cpus, Online env cpus ∧ Opens k₀ codename path (opened ++ cpus.map (name, ·)) t)
      (fun _ t => (∃ opened, Opens k₀ codename path opened t) ∧
        ¬(env.Serves ∧ Creatable codename name)) s := by
  rw [openEvent, wp_bind, wp_onKernel]
  refine getOnlineCpus_wp.mono (fun cpus k' hread => ?_) fun _ k' hk' => ?_
  · obtain ⟨rfl, honline⟩ := hread
    have hloop := wp_forM (l := cpus) (f := openEventForCpu env codename name)
      (I := fun pre => Opens k₀ codename path (opened ++ pre.map (name, ·)))
      (E := fun _ t => (∃ opened, Opens k₀ codename path opened t) ∧
        ¬(env.Serves ∧ Creatable codename name))
      (s := { s with kernel := s.kernel.tick }) ?_ ?_
    · exact hloop.mono (fun _ t ht => ⟨cpus, honline, ht⟩) fun _ _ ht => ht
    · simpa using h.of_table_eq (k := s.kernel.tick) rfl fun _ _ => Iff.rfl
    · intro pre cpu post t _ ht
      refine (openEventForCpu_wp ht).mono (fun _ t' ht' => ?_) fun _ t' ht' => ⟨⟨_, ht'.1⟩, ht'.2⟩
      simpa [List.append_assoc] using ht'
  · obtain ⟨rfl, hserves⟩ := hk'
    exact ⟨⟨opened, h.of_table_eq rfl fun _ _ => Iff.rfl⟩, fun hand => hserves hand.1⟩

/-- The loop of `_open`. -/
theorem openEvents_wp {names : List MetricName} (h : Opens k₀ codename path [] s) :
    wp (forM names (openEvent env codename))
      (fun _ t => ∃ reads, reads.length = names.length ∧ (∀ cpus ∈ reads, Online env cpus) ∧
        Opens k₀ codename path (openedOf names reads) t)
      (fun _ t => (∃ opened, Opens k₀ codename path opened t) ∧
        ¬(env.Serves ∧ ∀ name ∈ names, Creatable codename name)) s := by
  refine wp_forM (I := fun pre t => ∃ reads, reads.length = pre.length ∧
    (∀ cpus ∈ reads, Online env cpus) ∧ Opens k₀ codename path (openedOf pre reads) t)
    ⟨[], rfl, by simp, h⟩ fun pre name post t hnames ht => ?_
  obtain ⟨reads, hlength, honline, hopens⟩ := ht
  refine (openEvent_wp hopens).mono (fun _ t' ht' => ?_) fun _ _ ht' =>
    ⟨ht'.1, fun hand => ht'.2 ⟨hand.1, hand.2 name (by rw [hnames]; simp)⟩⟩
  obtain ⟨cpus, hcpus, hopens'⟩ := ht'
  refine ⟨reads ++ [cpus], by simp [hlength], fun cpus' hmem => ?_, ?_⟩
  · obtain hmem | hmem := List.mem_append.mp hmem
    · exact honline cpus' hmem
    · rwa [List.mem_singleton.mp hmem]
  · rwa [openedOf_append hlength.symm]

/-! ## Counting -/

/-- Some files may count that did not count before, and nothing else changes. -/
structure Enables (k k' : Kernel) (fds : List Fd) : Prop where
  table : k'.table = k.table
  kept : ∀ fd ∈ k.counting, fd ∈ k'.counting
  only : ∀ fd ∈ k'.counting, fd ∈ k.counting ∨ fd ∈ fds

theorem Enables.of_same {fds : List Fd} {k' : Kernel} (htable : k'.table = k.table)
    (hcounting : k'.counting = k.counting) : Enables k k' fds :=
  ⟨htable, fun _ h => hcounting ▸ h, fun _ h => Or.inl (hcounting ▸ h)⟩

theorem Enables.trans {fds fds' : List Fd} {k' k'' : Kernel} (h : Enables k k' fds)
    (h' : Enables k' k'' fds') : Enables k k'' (fds ++ fds') := by
  refine ⟨h'.table.trans h.table, fun fd hfd => h'.kept fd (h.kept fd hfd), fun fd hfd => ?_⟩
  obtain hfd | hfd := h'.only fd hfd
  · exact (h.only fd hfd).imp_right (List.mem_append_left _)
  · exact Or.inr (List.mem_append_right _ hfd)

theorem Enables.mono {fds fds' : List Fd} {k' : Kernel} (h : Enables k k' fds)
    (hsub : ∀ fd ∈ fds, fd ∈ fds') : Enables k k' fds' :=
  ⟨h.table, h.kept, fun fd hfd => (h.only fd hfd).imp_right (hsub fd)⟩

theorem ioctlFails_wp {fd : Fd} {request : ℕ} :
    wp (ioctlFails env fd request)
      (fun fails k' => Enables k k' [fd] ∧
        (fails = false → request = perfEventIocEnable → fd ∈ k'.counting) ∧
        (fails = true → ¬env.Serves))
      (fun _ _ => False) k := by
  rw [ioctlFails, wp_bind, wp_modify, wp_bind, wp_get]
  by_cases hfails : env.ioctlFails k.tick.calls = true
  · rw [if_pos hfails]
    refine ⟨.of_same rfl rfl, fun h => (by cases h), fun _ hserves => ?_⟩
    rw [hserves.ioctlFails] at hfails
    cases hfails
  · rw [if_neg hfails]
    by_cases hrequest : request = perfEventIocEnable
    · rw [if_pos hrequest]
      refine ⟨⟨rfl, fun x hx => List.mem_append_left _ hx, fun x hx => List.mem_append.mp hx⟩,
        fun _ _ => ?_, fun h => (by cases h)⟩
      exact List.mem_append_right _ List.mem_cons_self
    · rw [if_neg hrequest]
      exact ⟨.of_same rfl rfl, fun _ h => absurd h hrequest, fun h => (by cases h)⟩

/-- One turn of `_reset_and_enable_group_event_leaders`. -/
theorem resetAndEnable_wp {fd : Fd} : wp (resetAndEnable env fd)
    (fun _ k' => Enables k k' [fd] ∧ fd ∈ k'.counting)
    (fun _ k' => Enables k k' [fd] ∧ ¬env.Serves) k := by
  have htwice : ∀ {k' k''}, Enables k k' [fd] → Enables k' k'' [fd] → Enables k k'' [fd] :=
    fun h h' => (h.trans h').mono fun x hx => by simpa using hx
  rw [resetAndEnable, wp_bind]
  refine ioctlFails_wp.mono (fun fails k₁ hreset => ?_) fun _ _ h => h.elim
  cases fails with
  | true => exact ⟨hreset.1, hreset.2.2 rfl⟩
  | false =>
    show wp (ioctlFails env fd perfEventIocEnable >>= _) _ _ k₁
    rw [wp_bind]
    refine ioctlFails_wp.mono (fun fails k₂ henable => ?_) fun _ _ h => h.elim
    cases fails with
    | true => exact ⟨htwice hreset.1 henable.1, henable.2.2 rfl⟩
    | false => exact ⟨htwice hreset.1 henable.1, henable.2.1 rfl rfl⟩

/-- All leaders count when the loop over them returns. -/
theorem resetAndEnableAll_wp {fds : List Fd} : wp (forM fds (resetAndEnable env))
    (fun _ k' => Enables k k' fds ∧ ∀ fd ∈ fds, fd ∈ k'.counting)
    (fun _ k' => Enables k k' fds ∧ ¬env.Serves) k := by
  refine wp_forM (I := fun pre k' => Enables k k' pre ∧ ∀ fd ∈ pre, fd ∈ k'.counting)
    ⟨.of_same rfl rfl, fun _ h => absurd h List.not_mem_nil⟩ fun pre fd post k₁ hfds hpre => ?_
  refine resetAndEnable_wp.mono (fun _ k₂ hstep => ⟨hpre.1.trans hstep.1, fun x hx => ?_⟩)
    fun _ k₂ hstep => ?_
  · obtain hx | hx := List.mem_append.mp hx
    · exact hstep.1.kept x (hpre.2 x hx)
    · rw [List.mem_singleton.mp hx]
      exact hstep.2
  · refine ⟨(hpre.1.trans hstep.1).mono fun x hx => ?_, hstep.2⟩
    rw [hfds]
    obtain hx | hx := List.mem_append.mp hx
    · exact List.mem_append_left _ hx
    · rw [List.mem_singleton.mp hx]
      exact List.mem_append_right _ List.mem_cons_self

theorem Opens.enables (h : Opens k₀ codename path opened s)
    (henables : Enables s.kernel k s.files.groupEventLeaderFiles.values) :
    Opens k₀ codename path opened { s with kernel := k } := by
  refine h.of_table_eq henables.table fun fd hfd => ⟨fun hk => ?_, henables.kept fd⟩
  refine (henables.only fd hk).resolve_right fun hleader => ?_
  exact List.disjoint_of_nodup_append h.nodup hfd (List.mem_cons_of_mem _ (List.mem_append_left _ hleader))

/-- `_open`: the events were opened on the cpus that were online, and their leaders count. -/
theorem openCounters_wp {names : List MetricName} (h : Opens k₀ codename path [] s) :
    wp (openCounters env codename names)
      (fun _ t => ∃ reads, reads.length = names.length ∧ (∀ cpus ∈ reads, Online env cpus) ∧
        Opens k₀ codename path (openedOf names reads) t ∧
          ∀ fd ∈ t.files.groupEventLeaderFiles.values, fd ∈ t.kernel.counting)
      (fun _ t => (∃ opened, Opens k₀ codename path opened t) ∧
        ¬(env.Serves ∧ ∀ name ∈ names, Creatable codename name)) s := by
  rw [openCounters, wp_bind]
  refine (openEvents_wp h).mono (fun _ t ht => ?_) fun _ _ ht => ht
  obtain ⟨reads, hlength, honline, hopens⟩ := ht
  rw [wp_bind, wp_get, wp_onKernel]
  refine resetAndEnableAll_wp.mono (fun _ k' hk' => ?_) fun _ k' hk' =>
    ⟨⟨_, hopens.enables hk'.1⟩, fun hand => hk'.2 hand.1⟩
  exact ⟨reads, hlength, honline, hopens.enables hk'.1, hk'.2⟩

/-! ## Instances -/

/-- An instance of `PerfCounters`. -/
structure PerfSession where
  files : PerfFiles
  cgroupPath : String
  eventNames : List MetricName
  cpuCodename : CPUCodeName
  aggregateForAllCpusWithSum : Bool

/-- The path of the directory that stands for a cgroup. -/
def perfEventPath (cgroupPath : String) : String :=
  osPathJoin "/sys/fs/cgroup/perf_event" (.ofList (cgroupPath.toList.drop 1))

/-- The directory is open, the group of every cpu has the events whose list of online cpus had it, and
the leaders count. -/
structure Live (env : Environment) (k : Kernel) (session : PerfSession) (reads : List (List Cpu)) :
    Prop where
  length : reads.length = session.eventNames.length
  online : ∀ cpus ∈ reads, Online env cpus
  directory : k.table.files.get? session.files.cgroupFd =
    some (.directory (perfEventPath session.cgroupPath))
  groups : ∀ cpu, Grouped session.cpuCodename session.files k.table cpu
    (namesOn cpu (openedOf session.eventNames reads))
  counting : ∀ fd ∈ session.files.groupEventLeaderFiles.values, fd ∈ k.counting

/-- The descriptors have their files and their groups, and count as they did. -/
structure Untouched (k k' : Kernel) (fds : List Fd) : Prop where
  same : Same k.table k'.table fds
  counting : ∀ fd ∈ fds, fd ∈ k'.counting ↔ fd ∈ k.counting

namespace Untouched

variable {k' k'' : Kernel} {fds fds' : List Fd}

theorem refl (k : Kernel) (fds : List Fd) : Untouched k k fds := ⟨Same.refl _ _, fun _ _ => Iff.rfl⟩

theorem trans (h : Untouched k k' fds) (h' : Untouched k' k'' fds) : Untouched k k'' fds :=
  ⟨h.same.trans h'.same, fun fd hfd => (h'.counting fd hfd).trans (h.counting fd hfd)⟩

theorem mono (h : Untouched k k' fds) (hsub : ∀ fd ∈ fds', fd ∈ fds) : Untouched k k' fds' :=
  ⟨h.same.mono hsub, fun fd hfd => h.counting fd (hsub fd hfd)⟩

end Untouched

theorem Live.untouched {session : PerfSession} {reads : List (List Cpu)} {k' : Kernel}
    (h : Live env k session reads) (hsame : Untouched k k' session.files.fds) :
    Live env k' session reads where
  length := h.length
  online := h.online
  directory := (hsame.same.get? _ List.mem_cons_self).trans h.directory
  groups := by
    intro cpu
    have hgrouped := h.groups cpu
    rw [Grouped] at hgrouped ⊢
    cases hleader : session.files.groupEventLeaderFiles.get? cpu with
    | none => rwa [hleader] at hgrouped
    | some l =>
      rw [hleader] at hgrouped
      simp only at hgrouped ⊢
      rwa [hsame.same.group l (PerfFiles.leader_mem_fds hleader)]
  counting fd hfd := (hsame.counting fd (List.mem_cons_of_mem _ (List.mem_append_left _ hfd))).mpr
    (h.counting fd hfd)

/-! ## Closing -/

section Closing

variable {fds fds' : List Fd}

theorem closeAll_append : k.closeAll (fds ++ fds') = (k.closeAll fds).closeAll fds' := List.foldl_append

theorem table_closeAll : (k.closeAll fds).table = k.table.closeAll fds := by
  induction fds generalizing k with
  | nil => rfl
  | cons fd fds ih => exact ih

theorem mem_counting_closeAll {fd : Fd} : fd ∈ (k.closeAll fds).counting ↔ fd ∈ k.counting ∧ fd ∉ fds := by
  induction fds generalizing k with
  | nil => simp [Kernel.closeAll]
  | cons x fds ih =>
    have hstep : k.closeAll (x :: fds) = (k.close x).closeAll fds := rfl
    rw [hstep, ih, Kernel.close, List.mem_filter, decide_eq_true_iff, List.mem_cons, not_or, and_assoc]

theorem untouched_closeAll (hapart : k.table.Apart fds') (hout : ∀ fd ∈ fds, fd ∉ fds') :
    Untouched k (k.closeAll fds) fds' := by
  refine ⟨?_, fun fd hfd => ?_⟩
  · rw [table_closeAll]
    exact same_closeAll hapart hout
  · rw [mem_counting_closeAll]
    exact and_iff_left fun hin => hout fd hin hfd

theorem finalize_eq (files : PerfFiles) :
    files.finalize k = k.closeAll (files.groupEventLeaderFiles.values ++ files.eventFiles) :=
  closeAll_append.symm

theorem cleanup_eq (files : PerfFiles) : files.cleanup k =
    k.closeAll (files.groupEventLeaderFiles.values ++ files.eventFiles ++ [files.cgroupFd]) := by
  rw [closeAll_append, closeAll_append]
  rfl

/-- The order in which `cleanup` closes the descriptors of the instance. -/
theorem cleanup_perm (files : PerfFiles) :
    (files.groupEventLeaderFiles.values ++ files.eventFiles ++ [files.cgroupFd]).Perm files.fds :=
  List.perm_append_comm

end Closing

/-! ## The constructor -/

/-- The files of the kernel are those from before and some new ones. -/
structure Extends (k k' : Kernel) (fds : List Fd) : Prop where
  keys : k'.table.files.keys.Perm (k.table.files.keys ++ fds)
  untouched : Untouched k k' k.table.files.keys

theorem Opens.extends (h : Opens k₀ codename path opened s) : Extends k₀ s.kernel s.files.fds :=
  ⟨h.keys, h.kept, h.counting⟩

/-- What a constructor that raised leaves: at most the directory. -/
def Leaks (k k' : Kernel) : Prop :=
  Extends k k' [] ∨ ∃ dir path, Extends k k' [dir] ∧ k'.table.files.get? dir = some (.directory path)

/-- A finalized instance leaves its directory. -/
theorem Opens.finalized (h : Opens k₀ codename path opened s) :
    Leaks k₀ (s.files.finalize s.kernel) := by
  have hnodup := h.nodup
  have hfds : s.files.fds.Nodup := (List.nodup_append.mp hnodup).2.1
  have hdir := (List.nodup_cons.mp hfds).1
  have hapart : s.kernel.table.Apart k₀.table.files.keys := h.kept.apart apart_keys
  have hout : ∀ fd ∈ s.files.groupEventLeaderFiles.values ++ s.files.eventFiles, fd ∉ k₀.table.files.keys :=
    fun fd hfd hold => List.disjoint_of_nodup_append hnodup hold (List.mem_cons_of_mem _ hfd)
  refine Or.inr ⟨s.files.cgroupFd, path, ⟨?_, ?_⟩, ?_⟩
  · rw [finalize_eq, table_closeAll, keys_closeAll]
    have hold : k₀.table.files.keys.filter (· ∉ s.files.groupEventLeaderFiles.values ++ s.files.eventFiles) =
        k₀.table.files.keys :=
      List.filter_eq_self.mpr fun x hx => decide_eq_true fun hin => hout x hin hx
    have hnew : (s.files.groupEventLeaderFiles.values ++ s.files.eventFiles).filter
        (· ∉ s.files.groupEventLeaderFiles.values ++ s.files.eventFiles) = [] :=
      List.filter_eq_nil_iff.mpr fun x hx h => of_decide_eq_true h hx
    refine (h.keys.filter _).trans (List.Perm.of_eq ?_)
    rw [PerfFiles.fds, List.filter_append, List.filter_cons_of_pos (by simpa using hdir), hold, hnew]
  · rw [finalize_eq]
    exact (h.extends.untouched).trans (untouched_closeAll hapart hout)
  · rw [finalize_eq, table_closeAll]
    exact get?_closeAll_of_off h.directory rfl hdir

theorem wp_openFrom {names : List MetricName} {Q : PerfFiles → Kernel → Prop}
    {E : OpenExc → Kernel → Prop} : wp (openFrom env codename names dir) Q E k ↔
      wp (openCounters env codename names) (fun _ t => Q t.files t.kernel)
        (fun e t => E e (t.files.finalize t.kernel)) ⟨{ cgroupFd := dir }, k⟩ := by
  unfold wp
  rw [EStateM.run, openFrom]
  cases (openCounters env codename names).run ⟨{ cgroupFd := dir }, k⟩ <;> rfl

/-- What a constructor leaves that returned. -/
def Makes (env : Environment) (k : Kernel) (session : PerfSession) (k' : Kernel) : Prop :=
  Extends k k' session.files.fds ∧ ∃ reads, Live env k' session reads

/-- The constructor from the open directory on. -/
theorem openFrom_wp {cgroupPath : String} {names : List MetricName} {aggregate : Bool}
    (h : Opens k₀ codename (perfEventPath cgroupPath) [] ⟨{ cgroupFd := dir }, k⟩) :
    wp (openFrom env codename names dir)
      (fun files => Makes env k₀ ⟨files, cgroupPath, names, codename, aggregate⟩)
      (fun _ k' => Leaks k₀ k' ∧ ¬(env.Serves ∧ ∀ name ∈ names, Creatable codename name)) k := by
  rw [wp_openFrom]
  refine (openCounters_wp h).mono (fun _ t ht => ?_) fun _ t ht => ?_
  · obtain ⟨reads, hlength, honline, hopens, hcounting⟩ := ht
    exact ⟨hopens.extends, reads, hlength, honline, hopens.directory, hopens.groups, hcounting⟩
  · obtain ⟨⟨opened, hopens⟩, hserves⟩ := ht
    exact ⟨hopens.finalized, hserves⟩

theorem extends_of_table_eq {k' : Kernel} (htable : k'.table = k.table)
    (hcounting : k'.counting = k.counting) :
    Extends k k' [] := by
  refine ⟨by rw [htable, List.append_nil], ?_, fun fd _ => by rw [hcounting]⟩
  rw [htable]
  exact Same.refl _ _

/-- The directory is opened, or nothing is. -/
theorem osOpen_wp (codename : CPUCodeName) : wp (osOpen env path)
    (fun pfd k' => match pfd with
      | .ok dir => Opens k codename path [] ⟨{ cgroupFd := dir }, k'⟩
      | .error _ => k' = k.tick ∧ ¬env.Serves)
    (fun _ _ => False) k := by
  rw [osOpen, wp_bind, wp_modify, wp_bind, wp_get]
  cases hanswer : env.openDirectory k.tick.calls with
  | some errno =>
    refine ⟨rfl, fun hserves => ?_⟩
    rw [hserves.openDirectory] at hanswer
    cases hanswer
  | none =>
    have hfresh := env.fresh_not_mem k.table.files.keys
    have hoff : ∀ l, Hanging.on (OpenFile.directory path) = some l → l ∈ k.table.files.keys :=
      fun l h => by cases h
    refine ⟨List.Perm.of_eq ?_, ?_, ?_, fun cpu => rfl, fun _ _ => Iff.rfl⟩
    · exact @keys_openAt OpenFile _ k.table _ _ hfresh hoff
    · exact @same_openAt OpenFile _ k.table _ _ _ hfresh hoff hfresh fun l _ h => (by cases h)
    · exact Dict.get?_set.trans (if_pos rfl)

/-- What a constructor needs: an absolute path, and names whose attributes can be created. -/
def Proper (cgroupPath : String) (names : List MetricName) (codename : CPUCodeName) : Prop :=
  Str.startsWith "/" cgroupPath = true ∧ ∀ name ∈ names, Creatable codename name

/-- `PerfCounters.__init__`: a new instance that is live, or at most a directory. It raises only when
something is not proper or the kernel refuses something. -/
theorem initCounters_wp (env : Environment) (k : Kernel) (cgroupPath : String) (names : List MetricName)
    (codename : CPUCodeName) (aggregate : Bool) :
    wp (initCounters env cgroupPath names codename)
      (fun files => Makes env k ⟨files, cgroupPath, names, codename, aggregate⟩)
      (fun _ k' => Leaks k k' ∧ ¬(env.Serves ∧ Proper cgroupPath names codename)) k := by
  rw [initCounters, wp_ite]
  refine ⟨fun _ => ?_, fun hpath => ⟨Or.inl (extends_of_table_eq rfl rfl), fun hand => hpath hand.2.1⟩⟩
  rw [wp_bind, getCgroupFd, wp_bind]
  refine (osOpen_wp codename).mono (fun pfd k' hk' => ?_) fun _ _ h => h.elim
  cases pfd with
  | ok dir =>
    exact (openFrom_wp hk').mono (fun _ _ h => h)
      fun _ _ h => ⟨h.1, fun hand => h.2 ⟨hand.1, hand.2.2⟩⟩
  | error errno =>
    obtain ⟨rfl, hserves⟩ := hk'
    have hleaks : Leaks k k.tick := Or.inl (extends_of_table_eq rfl rfl)
    simp only
    rw [wp_ite]
    exact ⟨fun _ => ⟨hleaks, fun hand => hserves hand.1⟩, fun _ => ⟨hleaks, fun hand => hserves hand.1⟩⟩

end Wca.Perf
