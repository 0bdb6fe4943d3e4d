import Wca.Storage
import Wca.Py.Exec

/-!
# Who is told that a message has failed

`KafkaStorage.store` sends a message at a time and waits for it with `flush`. One field of the object
keeps the error of whatever message a callback is run for, and the queue of the producer outlives a
timeout. So a call that returns has delivered all of its messages, while one that raises may do so for
the messages of an earlier one (`store_attributes_iff`).
-/

namespace Wca.KafkaStorage

open Py

variable {F Err : Type}

/-- A message, with the call that has produced it. -/
structure Message where
  call : ℕ
  text : String
  deriving DecidableEq

/-- What the producer does while it is flushed: it runs the callbacks of some of the messages in its
queue, with an error for those that failed, and the others stay. -/
structure Response (Err : Type) (queue : List Message) where
  callbacks : List (Message × Option Err)
  queued : List Message
  perm : (callbacks.map Prod.fst ++ queued).Perm queue

/-- A flush that is over, and the message it was for. -/
structure Flush (Err : Type) where
  own : Message
  callbacks : List (Message × Option Err)
  queued : List Message
  deriving DecidableEq

/-- The storage and its producer. What the producer does next may depend on all it has done. -/
structure State (Err : Type) where
  queue : List Message := []
  errorFromCallback : Option Err := none
  flushes : List (Flush Err) := []

abbrev Producer (Err : Type) := List (Flush Err) → (queue : List Message) → Response Err queue

/-- What `store` raises. A `FailedDeliveryException` is about a timeout or about an error. -/
inductive StoreExn (Err : Type) where
  | builtin (e : Exn)
  | InconvertibleToPrometheusExpositionFormat (reason : Inconvertible)
  | FailedDeliveryException (error : Option Err)
  deriving DecidableEq

abbrev StoreM (Err : Type) := EStateM (StoreExn Err) (State Err)

def callbackOnDelivery (err : Option Err) : StoreM Err PUnit :=
  match err with
  | some err => modify fun s => { s with errorFromCallback := some err }
  | none => pure PUnit.unit

def produce (message : Message) : StoreM Err PUnit :=
  modify fun s => { s with queue := s.queue ++ [message] }

/-- `self.producer.flush`, which returns how many messages are still queued. -/
def flush (producer : Producer Err) (own : Message) : StoreM Err ℕ := do
  let s ← get
  let response := producer s.flushes s.queue
  let done : Flush Err := ⟨own, response.callbacks, response.queued⟩
  set { s with queue := response.queued, flushes := s.flushes ++ [done] }
  forM response.callbacks fun callback => callbackOnDelivery callback.2
  return response.queued.length

/-- The body of the loop. -/
def send (producer : Producer Err) (message : Message) : StoreM Err PUnit := do
  produce message
  let r ← flush producer message
  if r > 0 then throw (.FailedDeliveryException none)
  else do
    let s ← get
    match s.errorFromCallback with
    | some err =>
      set { s with errorFromCallback := none }
      throw (.FailedDeliveryException (some err))
    | none => pure PUnit.unit

/-- The messages of a call; an empty list of metrics is skipped. -/
def messages (repr : F → String) (overhead : ℕ) (metrics : List (Metric F)) (timestamp : String) :
    Except (StoreExn Err) (List String) :=
  match metrics, isConvertableToPrometheusExpositionFormat metrics with
  | [], _ => .ok []
  | _, some reason => .error (.InconvertibleToPrometheusExpositionFormat reason)
  | metrics, none => Except.mapError .builtin do
    let msg ← convertToPrometheusExpositionFormat repr metrics (some timestamp) none
    divideMessage overhead msg

def store (repr : F → String) (overhead : ℕ) (producer : Producer Err) (call : ℕ)
    (metrics : List (Metric F)) (timestamp : String) : StoreM Err PUnit := do
  let texts ← Py.liftExcept (messages repr overhead metrics timestamp)
  forM texts fun text => send producer ⟨call, text⟩

/-! ## Runs -/

structure Call (F : Type) where
  metrics : List (Metric F)
  timestamp : String

/-- How a call ends, and the flushes it has done. -/
structure Outcome (Err : Type) where
  result : Except (StoreExn Err) PUnit
  flushes : List (Flush Err)
  deriving DecidableEq

def runCall (repr : F → String) (overhead : ℕ) (producer : Producer Err) (n : ℕ) (call : Call F)
    (s : State Err) : Outcome Err × State Err :=
  match (store repr overhead producer n call.metrics call.timestamp).run s with
  | .ok a s' => (⟨.ok a, s'.flushes.drop s.flushes.length⟩, s')
  | .error e s' => (⟨.error e, s'.flushes.drop s.flushes.length⟩, s')

/-- The calls from the `n`-th on, one after the other whether they return or raise. -/
def runCalls (repr : F → String) (overhead : ℕ) (producer : Producer Err) :
    ℕ → List (Call F) → State Err → List (Call F × Outcome Err)
  | _, [], _ => []
  | n, call :: calls, s =>
    (call, (runCall repr overhead producer n call s).1) ::
      runCalls repr overhead producer (n + 1) calls (runCall repr overhead producer n call s).2

/-- The message of the flush was delivered in it, without an error. -/
def Flush.Delivered (f : Flush Err) : Prop := (f.own, none) ∈ f.callbacks

/-- A call returns only when its messages were delivered, and does not raise for the delivery when all
it has sent were delivered in time. -/
def Attributed (repr : F → String) (overhead : ℕ) (call : Call F) (o : Outcome Err) : Prop :=
  (o.result = .ok PUnit.unit → ∃ texts,
    (messages repr overhead call.metrics call.timestamp : Except (StoreExn Err) _) = .ok texts ∧
      o.flushes.map (·.own.text) = texts ∧ ∀ f ∈ o.flushes, f.Delivered) ∧
  ((∀ f ∈ o.flushes, f.Delivered) → ∀ error, o.result ≠ .error (.FailedDeliveryException error))

/-! ## Elements with what comes before them -/

/-- `P` holds of every element and what is before it, from `past` on. -/
def Along {α : Type} (P : List α → α → Prop) : List α → List α → Prop
  | _, [] => True
  | past, a :: l => P past a ∧ Along P (past ++ [a]) l

section Along

variable {α : Type} {P Q : List α → α → Prop} {past l l' : List α}

theorem along_append : Along P past (l ++ l') ↔ Along P past l ∧ Along P (past ++ l) l' := by
  induction l generalizing past with
  | nil => simp [Along]
  | cons a l ih =>
    rw [List.cons_append, Along, Along, ih, List.append_assoc, and_assoc]
    rfl

theorem Along.imp (h : Along P past l) (hPQ : ∀ past, ∀ a ∈ l, P past a → Q past a) :
    Along Q past l := by
  induction l generalizing past with
  | nil => trivial
  | cons a l ih =>
    refine ⟨hPQ past a List.mem_cons_self h.1, ih h.2 fun past b hb => ?_⟩
    exact hPQ past b (List.mem_cons_of_mem a hb)

theorem Along.forall {p : α → Prop} (h : Along P past l) (hp : ∀ past, ∀ a ∈ l, P past a → p a) :
    ∀ a ∈ l, p a := by
  induction l generalizing past with
  | nil => intro a ha; cases ha
  | cons b l ih =>
    intro a ha
    obtain rfl | ha := List.mem_cons.mp ha
    · exact hp past a List.mem_cons_self h.1
    · exact ih h.2 (fun past c hc => hp past c (List.mem_cons_of_mem b hc)) a ha

end Along

/-! ## When nothing comes from an earlier call -/

def Flush.timedOut (f : Flush Err) : Bool := !f.queued.isEmpty

/-- All messages of the queue were delivered. -/
def Flush.AllDelivered (f : Flush Err) : Prop := f.queued = [] ∧ ∀ c ∈ f.callbacks, c.2 = none

/-- A message has failed in the flushes at the end that ran into the timeout. -/
def ErrorLeft (past : List (Flush Err)) : Prop :=
  ∃ f ∈ past.reverse.takeWhile Flush.timedOut, ∃ c ∈ f.callbacks, c.2 ≠ none

def Flush.Passes (past : List (Flush Err)) (f : Flush Err) : Prop :=
  f.AllDelivered ∧ ¬ ErrorLeft past

/-- Where the message of a flush is delivered, the flush leaves and fails none of the others, and no
error is left by the flushes before it. -/
def OnTime (past flushes : List (Flush Err)) : Prop :=
  Along (fun past f => f.Delivered → f.Passes past) past flushes

theorem not_errorLeft_nil : ¬ ErrorLeft ([] : List (Flush Err)) := by
  rintro ⟨f, hf, -⟩
  cases hf

theorem errorLeft_concat {past : List (Flush Err)} {f : Flush Err} : ErrorLeft (past ++ [f]) ↔
    f.queued ≠ [] ∧ ((∃ c ∈ f.callbacks, c.2 ≠ none) ∨ ErrorLeft past) := by
  rw [ErrorLeft, List.reverse_concat, List.takeWhile_cons]
  by_cases hf : f.queued = []
  · simp [Flush.timedOut, hf]
  · simp [Flush.timedOut, hf, ErrorLeft]

/-! ## One message -/

section Sending

variable {producer : Producer Err} {message : Message} {s s' : State Err}

/-- The error after some callbacks. -/
def lastError (before : Option Err) (callbacks : List (Message × Option Err)) : Option Err :=
  callbacks.foldl (fun error c => c.2.or error) before

theorem lastError_eq_none (before : Option Err) (callbacks : List (Message × Option Err)) :
    lastError before callbacks = none ↔ before = none ∧ ∀ c ∈ callbacks, c.2 = none := by
  induction callbacks generalizing before with
  | nil => simp [lastError]
  | cons c callbacks ih =>
    rw [lastError, List.foldl_cons, ← lastError, ih, Option.or_eq_none_iff, List.forall_mem_cons,
      and_comm (a := c.2 = none), and_assoc]

theorem callbacks_run (callbacks : List (Message × Option Err)) (s : State Err) :
    (forM callbacks fun c => callbackOnDelivery c.2 : StoreM Err PUnit).run s =
      .ok PUnit.unit { s with errorFromCallback := lastError s.errorFromCallback callbacks } := by
  induction callbacks generalizing s with
  | nil => rfl
  | cons c callbacks ih =>
    have hcallback : (callbackOnDelivery c.2 : StoreM Err PUnit).run s =
        .ok PUnit.unit { s with errorFromCallback := c.2.or s.errorFromCallback } := by
      cases c.2 <;> rfl
    rw [List.forM_cons, bind_of_ok hcallback, ih]
    rfl

/-- The flush for a message. -/
def nextFlush (producer : Producer Err) (message : Message) (s : State Err) : Flush Err :=
  ⟨message, (producer s.flushes (s.queue ++ [message])).callbacks,
    (producer s.flushes (s.queue ++ [message])).queued⟩

theorem send_run (producer : Producer Err) (message : Message) (s : State Err) :
    (send producer message).run s =
    if (nextFlush producer message s).queued ≠ [] then
      .error (.FailedDeliveryException none) ⟨(nextFlush producer message s).queued,
        lastError s.errorFromCallback (nextFlush producer message s).callbacks,
        s.flushes ++ [nextFlush producer message s]⟩
    else
      match lastError s.errorFromCallback (nextFlush producer message s).callbacks with
      | some err => .error (.FailedDeliveryException (some err))
          ⟨[], none, s.flushes ++ [nextFlush producer message s]⟩
      | none => .ok PUnit.unit ⟨[], none, s.flushes ++ [nextFlush producer message s]⟩ := by
  have hflush : (do produce message; flush producer message : StoreM Err ℕ).run s =
      .ok (nextFlush producer message s).queued.length ⟨(nextFlush producer message s).queued,
        lastError s.errorFromCallback (nextFlush producer message s).callbacks,
        s.flushes ++ [nextFlush producer message s]⟩ := by
    refine bind_ok_iff.mpr ⟨_, _, rfl, ?_⟩
    refine bind_ok_iff.mpr ⟨_, _, get_run _, ?_⟩
    refine bind_ok_iff.mpr ⟨_, _, set_run _ _, ?_⟩
    exact bind_ok_iff.mpr ⟨_, _, callbacks_run _ _, rfl⟩
  rw [send, ← bind_assoc, bind_of_ok hflush]
  cases hqueued : (nextFlush producer message s).queued with
  | nil =>
    rw [if_neg (by simp), if_neg (by simp), bind_of_ok (get_run _)]
    cases lastError s.errorFromCallback (nextFlush producer message s).callbacks <;> rfl
  | cons first rest =>
    rw [if_pos (by simp), if_pos (by simp)]
    rfl

/-- The field holds an error when one is left. -/
def State.Tracks (s : State Err) : Prop := s.errorFromCallback ≠ none ↔ ErrorLeft s.flushes

theorem Flush.AllDelivered.delivered {f : Flush Err} (h : f.AllDelivered)
    (hown : f.own ∈ f.callbacks.map Prod.fst ++ f.queued) : f.Delivered := by
  rw [h.1, List.append_nil] at hown
  obtain ⟨c, hc, howner⟩ := List.mem_map.mp hown
  rw [Delivered, ← howner, ← h.2 c hc]
  exact hc

/-- A message is sent without an exception exactly when everything was delivered. -/
theorem send_spec (producer : Producer Err) (message : Message) (hs : s.Tracks) : ∃ f s', s'.flushes = s.flushes ++ [f] ∧ s'.Tracks ∧
    f.own = message ∧ (f.AllDelivered → f.Delivered) ∧
      ((send producer message).run s = .ok PUnit.unit s' ∧ f.Passes s.flushes ∨
        (∃ error, (send producer message).run s = .error (.FailedDeliveryException error) s') ∧
          ¬ f.Passes s.flushes) := by
  have hown : message ∈ (nextFlush producer message s).callbacks.map Prod.fst ++
      (nextFlush producer message s).queued :=
    (producer s.flushes (s.queue ++ [message])).perm.mem_iff.mpr (by simp)
  have howner : (nextFlush producer message s).own = message := rfl
  have hdelivered : (nextFlush producer message s).AllDelivered →
      (nextFlush producer message s).Delivered := fun h => h.delivered hown
  have hrun := send_run producer message s
  have herror := lastError_eq_none s.errorFromCallback (nextFlush producer message s).callbacks
  have hleft : s.errorFromCallback = none ↔ ¬ ErrorLeft s.flushes :=
    not_ne_iff.symm.trans (not_congr hs)
  generalize nextFlush producer message s = f at *
  by_cases hqueued : f.queued = []
  · rw [if_neg (not_not_intro hqueued)] at hrun
    have htracks : State.Tracks ⟨[], none, s.flushes ++ [f]⟩ :=
      iff_of_false (fun h => h rfl) fun h => (errorLeft_concat.mp h).1 hqueued
    have hpasses : f.Passes s.flushes ↔ lastError s.errorFromCallback f.callbacks = none := by
      rw [herror, hleft, Flush.Passes, Flush.AllDelivered, and_iff_right hqueued, and_comm]
    refine ⟨f, _, rfl, htracks, howner, hdelivered, ?_⟩
    rw [hpasses]
    cases hlast : lastError s.errorFromCallback f.callbacks with
    | none =>
      rw [hlast] at hrun
      exact .inl ⟨hrun, rfl⟩
    | some err =>
      rw [hlast] at hrun
      exact .inr ⟨⟨some err, hrun⟩, Option.some_ne_none err⟩
  · rw [if_pos hqueued] at hrun
    refine ⟨f, _, rfl, ?_, howner, hdelivered, .inr ⟨⟨none, hrun⟩, fun h => hqueued h.1.1⟩⟩
    rw [State.Tracks, errorLeft_concat, and_iff_right hqueued, Ne, herror, hleft, not_and_or,
      not_not, or_comm]
    simp

/-- The messages of a call are sent up to the first that does not pass. -/
theorem sends_spec (producer : Producer Err) (hs : s.Tracks) (call : ℕ) (texts : List String) : ∃ fs s',
    s'.flushes = s.flushes ++ fs ∧ s'.Tracks ∧ (∀ f ∈ fs, f.AllDelivered → f.Delivered) ∧
      ((forM texts fun text => send producer ⟨call, text⟩).run s = .ok PUnit.unit s' ∧
          fs.map (·.own.text) = texts ∧ Along (fun past f => f.Passes past) s.flushes fs ∨
        (∃ error, (forM texts fun text => send producer ⟨call, text⟩).run s =
            .error (.FailedDeliveryException error) s') ∧
          ∃ init last, fs = init ++ [last] ∧ Along (fun past f => f.Passes past) s.flushes init ∧
            ¬ last.Passes (s.flushes ++ init)) := by
  induction texts generalizing s with
  | nil =>
    refine ⟨[], s, (List.append_nil _).symm, hs, fun f hf => (by cases hf),
      .inl ⟨rfl, rfl, trivial⟩⟩
  | cons text texts ih =>
    obtain ⟨f, t, hflushes, htracks, hown, hdelivered, hsend⟩ :=
      send_spec producer ⟨call, text⟩ hs
    rw [List.forM_cons]
    obtain ⟨hsend, hpasses⟩ | ⟨⟨error, hsend⟩, hpasses⟩ := hsend
    · obtain ⟨fs, s', hflushes', htracks', hdelivered', hrest⟩ := ih htracks
      rw [hflushes] at hflushes' hrest
      refine ⟨f :: fs, s', by rw [hflushes', List.append_assoc]; rfl, htracks',
        List.forall_mem_cons.mpr ⟨hdelivered, hdelivered'⟩, ?_⟩
      rw [bind_of_ok hsend]
      obtain ⟨hrun, htexts, hall⟩ | ⟨hrun, init, last, hfs, hall, hlast⟩ := hrest
      · exact .inl ⟨hrun, by rw [List.map_cons, htexts, hown], hpasses, hall⟩
      · refine .inr ⟨hrun, f :: init, last, by rw [hfs]; rfl, ⟨hpasses, hall⟩, ?_⟩
        rwa [List.append_assoc] at hlast
    · refine ⟨[f], t, hflushes, htracks, List.forall_mem_singleton.mpr hdelivered, .inr ⟨?_, ?_⟩⟩
      · exact ⟨error, bind_of_error hsend⟩
      · exact ⟨[], f, rfl, trivial, by rwa [List.append_nil]⟩

end Sending

/-! ## Calls -/

section Calls

variable (repr : F → String) (overhead : ℕ) (producer : Producer Err) {s : State Err}

theorem messages_error {metrics : List (Metric F)} {timestamp : String} {e : StoreExn Err}
    (h : messages repr overhead metrics timestamp = .error e) (error : Option Err) :
    e ≠ .FailedDeliveryException error := by
  rintro rfl
  have hmap : ∀ x : Except Exn (List String), Except.mapError StoreExn.builtin x ≠
      .error (.FailedDeliveryException error) := by
    intro x hx
    cases x <;> cases hx
  unfold messages at h
  split at h
  · cases h
  · cases h
  · exact hmap _ h

theorem runCall_spec (hs : s.Tracks) (n : ℕ) (call : Call F) :
    (runCall repr overhead producer n call s).2.Tracks ∧
      (runCall repr overhead producer n call s).2.flushes =
        s.flushes ++ (runCall repr overhead producer n call s).1.flushes ∧
      (Attributed repr overhead call (runCall repr overhead producer n call s).1 ↔
        OnTime s.flushes (runCall repr overhead producer n call s).1.flushes) := by
  rw [runCall, store]
  cases hmessages : (messages repr overhead call.metrics call.timestamp : Except (StoreExn Err) _) with
  | error e =>
    rw [bind_of_error (liftExcept_error e s)]
    dsimp only
    rw [List.drop_length]
    refine ⟨hs, (List.append_nil _).symm, iff_of_true ⟨fun h => (by cases h),
      fun _ error h => ?_⟩ trivial⟩
    exact messages_error repr overhead hmessages error (Except.error.inj h)
  | ok texts =>
    rw [bind_of_ok (liftExcept_ok texts s)]
    obtain ⟨fs, s', hflushes, htracks, hdelivered, hrun⟩ :=
      sends_spec producer hs n texts
    have hdrop : s'.flushes.drop s.flushes.length = fs := by rw [hflushes, List.drop_left]
    obtain ⟨hrun, htexts, hall⟩ | ⟨⟨error, hrun⟩, init, last, rfl, hall, hlast⟩ := hrun
    · rw [hrun]
      dsimp only
      rw [hdrop]
      refine ⟨htracks, hflushes, iff_of_true ⟨fun _ => ⟨texts, hmessages, htexts, ?_⟩, ?_⟩ ?_⟩
      · exact hall.forall fun past f hf hpasses => hdelivered f hf hpasses.1
      · intro _ error h
        cases h
      · exact hall.imp fun past f _ hpasses _ => hpasses
    · rw [hrun]
      dsimp only
      rw [hdrop]
      refine ⟨htracks, hflushes, ?_⟩
      have hinit : ∀ f ∈ init, f.Delivered := hall.forall fun past f hf hpasses =>
        hdelivered f (List.mem_append_left _ hf) hpasses.1
      rw [OnTime, along_append]
      constructor
      · rintro ⟨-, hraises⟩
        refine ⟨hall.imp fun past f _ hpasses _ => hpasses, fun hown => ?_, trivial⟩
        have hfs := List.forall_mem_append.mpr ⟨hinit, List.forall_mem_singleton.mpr hown⟩
        exact absurd rfl (hraises hfs error)
      · rintro ⟨-, hontime, -⟩
        refine ⟨fun h => (by cases h), fun hfs => absurd (hontime ?_) hlast⟩
        exact hfs last (by simp)

/-- In every run of calls and with every pattern of deliveries, each call answers for its own messages
exactly when the producer delivers, with the message of a flush, all messages that are still queued,
and no message has failed in the flushes before it that ran into the timeout. -/
theorem store_attributes_iff (producer : Producer Err) (calls : List (Call F)) :
    (∀ p ∈ runCalls repr overhead producer 0 calls {}, Attributed repr overhead p.1 p.2) ↔
      OnTime [] ((runCalls repr overhead producer 0 calls {}).flatMap (·.2.flushes)) := by
  suffices hgo : ∀ (n : ℕ) (s : State Err), s.Tracks →
      ((∀ p ∈ runCalls repr overhead producer n calls s, Attributed repr overhead p.1 p.2) ↔
        OnTime s.flushes ((runCalls repr overhead producer n calls s).flatMap (·.2.flushes))) from
    hgo 0 {} (iff_of_false (fun h => h rfl) not_errorLeft_nil)
  induction calls with
  | nil => exact fun n s _ => iff_of_true (fun p hp => (by cases hp)) trivial
  | cons call calls ih =>
    intro n s hs
    obtain ⟨htracks, hflushes, hcall⟩ := runCall_spec repr overhead producer hs n call
    rw [runCalls, List.forall_mem_cons, List.flatMap_cons, OnTime, along_append, ← hflushes, hcall,
      ih (n + 1) _ htracks]
    exact Iff.rfl

end Calls

/-! ## A message that fails in a later call -/

/-- The first flush does not come to its message; in the next one the message of the first call has
timed out, and the others are delivered. -/
def lateProducer : Producer String := fun past queue =>
  match past with
  | [] => ⟨[], queue, by simp⟩
  | _ => ⟨queue.map fun message =>
      (message, if message.call = 0 then some "_MSG_TIMED_OUT" else none), [], by
        simp [Function.comp_def]⟩

def smallCall : Call ℕ := ⟨[{ name := "a", value := .int 1 }], "5"⟩

/-- The second call has delivered its message and raises the error of the first one's. -/
theorem late_failure_is_misattributed :
    ¬ ∀ p ∈ runCalls toString 49 lateProducer 0 [smallCall, smallCall] {},
      Attributed toString 49 p.1 p.2 := by
  intro h
  have hsecond : ((runCalls toString 49 lateProducer 0 [smallCall, smallCall] {}).map Prod.snd)[1]? =
      some ⟨.error (.FailedDeliveryException (some "_MSG_TIMED_OUT")), [⟨⟨1, "a 1 5\n"⟩,
        [(⟨0, "a 1 5\n"⟩, some "_MSG_TIMED_OUT"), (⟨1, "a 1 5\n"⟩, none)], []⟩]⟩ := by
    decide +kernel
  obtain ⟨p, hp, houtcome⟩ := List.mem_map.mp (List.mem_of_getElem? hsecond)
  have hattributed := (h p hp).2
  rw [houtcome] at hattributed
  have hdelivered : ((⟨1, "a 1 5\n"⟩ : Message), (none : Option String)) ∈
      [(⟨0, "a 1 5\n"⟩, some "_MSG_TIMED_OUT"), (⟨1, "a 1 5\n"⟩, none)] := by decide
  exact hattributed (List.forall_mem_singleton.mpr hdelivered) _ rfl

end Wca.KafkaStorage
