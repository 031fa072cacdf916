import Mathlib.Logic.Relation
import SyncTool.PosixPath

set_option autoImplicit false

namespace SyncTool

/-- The tables of an `AsyncIOHandler`, by file descriptor: what epoll watches, and for each
registered write the callback and the bytes still to be written. -/
structure AsyncIOHandler (Callback : Type) where
  interest : Nat → Bool
  writeCallbacks : Nat → Option Callback
  writeBuffers : Nat → Option Bytes

namespace AsyncIOHandler

variable {Callback : Type}

/-- `epoll_ctl(EPOLL_CTL_ADD)`: a descriptor that is watched already is refused. -/
def add (handler : AsyncIOHandler Callback) (fd : Nat) : Option (AsyncIOHandler Callback) :=
  if handler.interest fd then none
  else some { handler with interest := Function.update handler.interest fd true }

/-- The rest of `registerWrite`, once epoll has accepted the descriptor. -/
def store (handler : AsyncIOHandler Callback) (fd : Nat) (data : Bytes) (callback : Callback) :
    AsyncIOHandler Callback :=
  { handler with
    writeCallbacks := Function.update handler.writeCallbacks fd (some callback)
    writeBuffers := Function.update handler.writeBuffers fd (some data) }

def remove (handler : AsyncIOHandler Callback) (fd : Nat) : AsyncIOHandler Callback where
  interest := Function.update handler.interest fd false
  writeCallbacks := Function.update handler.writeCallbacks fd none
  writeBuffers := Function.update handler.writeBuffers fd none

/-- What `ioThread` does with one write-ready event whose `write` moves `n` bytes (0 if it
fails): the bytes written, the tables, and the callback if the buffer is finished. -/
def writeReady (handler : AsyncIOHandler Callback) (fd n : Nat) :
    Bytes × AsyncIOHandler Callback × Option Callback :=
  match handler.writeBuffers fd, handler.writeCallbacks fd with
  | some data, some callback =>
      if 0 < n then
        if n = data.length then (data, handler, some callback)
        else
          (data.take n,
            { handler with
              writeBuffers := Function.update handler.writeBuffers fd (some (data.drop n)) },
            none)
      else ([], handler, none)
  | _, _ => ([], handler, none)

/-- A write is registered for the descriptor. -/
def Registered (handler : AsyncIOHandler Callback) (fd : Nat) : Prop :=
  handler.writeCallbacks fd ≠ none ∨ handler.writeBuffers fd ≠ none

/-- Tables that agree on one descriptor. -/
def Agree (fd : Nat) (h h' : AsyncIOHandler Callback) : Prop :=
  h'.interest fd = h.interest fd ∧ h'.writeCallbacks fd = h.writeCallbacks fd ∧
    h'.writeBuffers fd = h.writeBuffers fd

end AsyncIOHandler

namespace AsyncSend

def asyncBufferSize : Nat := 8192

/-- The two callbacks: the one that reads the next buffer, and the one of that buffer. -/
inductive Callback where
  | next
  | last
deriving DecidableEq

/-- Where the calling thread is: before the first `registerWrite`, between its two halves,
waiting for `transferDone`, back from waiting, or back without a `registerWrite` because the
file is empty. -/
inductive Caller where
  | opened
  | added
  | waiting
  | returned
  | skipped
deriving DecidableEq

/-- What the I/O thread does besides waiting for events. -/
inductive IoThread where
  | idle
  | calling (callback : Callback)
  | storing (data : Bytes)
  | removing
deriving DecidableEq

structure State where
  handler : AsyncIOHandler Callback
  written : Bytes
  transferDone : Bool
  caller : Caller
  io : IoThread

/-- The first buffer, and the one the callback reads behind it. -/
def firstBuffer (content : Bytes) : Bytes := content.take asyncBufferSize
def nextBuffer (content : Bytes) : Bytes := (content.drop asyncBufferSize).take asyncBufferSize

/-- The calling thread, the I/O thread on this socket, and anything on other descriptors. -/
inductive Step (content : Bytes) (sockfd : Nat) : State → State → Prop where
  | empty {s : State} : s.caller = .opened → firstBuffer content = [] →
      Step content sockfd s { s with caller := .skipped }
  | add {s : State} {handler : AsyncIOHandler Callback} : s.caller = .opened →
      firstBuffer content ≠ [] → s.handler.add sockfd = some handler →
      Step content sockfd s { s with handler := handler, caller := .added }
  | refused {s : State} : s.caller = .opened → firstBuffer content ≠ [] →
      s.handler.add sockfd = none → Step content sockfd s { s with caller := .waiting }
  | store {s : State} : s.caller = .added →
      Step content sockfd s
        { s with handler := s.handler.store sockfd (firstBuffer content) .next, caller := .waiting }
  | wake {s : State} : s.caller = .waiting → s.transferDone = true →
      Step content sockfd s { s with caller := .returned }
  | event {s : State} (n : Nat) : s.io = .idle → s.handler.interest sockfd = true →
      (∀ data, s.handler.writeBuffers sockfd = some data → n ≤ data.length) →
      Step content sockfd s
        { s with
          handler := (s.handler.writeReady sockfd n).2.1
          written := s.written ++ (s.handler.writeReady sockfd n).1
          io := match (s.handler.writeReady sockfd n).2.2 with
            | none => .idle
            | some callback => .calling callback }
  | finish {s : State} : s.io = .calling .next →
      (content.length < asyncBufferSize ∨ nextBuffer content = []) →
      Step content sockfd s { s with transferDone := true, io := .removing }
  | addNext {s : State} {handler : AsyncIOHandler Callback} : s.io = .calling .next →
      asyncBufferSize ≤ content.length → nextBuffer content ≠ [] →
      s.handler.add sockfd = some handler →
      Step content sockfd s { s with handler := handler, io := .storing (nextBuffer content) }
  | refusedNext {s : State} : s.io = .calling .next → asyncBufferSize ≤ content.length →
      nextBuffer content ≠ [] → s.handler.add sockfd = none →
      Step content sockfd s { s with io := .removing }
  | storeNext {s : State} {data : Bytes} : s.io = .storing data →
      Step content sockfd s
        { s with handler := s.handler.store sockfd data .last, io := .removing }
  | finishLast {s : State} : s.io = .calling .last →
      Step content sockfd s { s with transferDone := true, io := .removing }
  | remove {s : State} : s.io = .removing →
      Step content sockfd s { s with handler := s.handler.remove sockfd, io := .idle }
  | other {s : State} {handler : AsyncIOHandler Callback} :
      AsyncIOHandler.Agree sockfd s.handler handler →
      Step content sockfd s { s with handler := handler }

/-- A call on a socket the handler does not know. -/
structure Start (sockfd : Nat) (s : State) : Prop where
  unwatched : s.handler.interest sockfd = false
  free : ¬ s.handler.Registered sockfd
  written : s.written = []
  notDone : s.transferDone = false
  caller : s.caller = .opened
  io : s.io = .idle

def Reachable (content : Bytes) (sockfd : Nat) (s : State) : Prop :=
  ∃ start, Start sockfd start ∧ Relation.ReflTransGen (Step content sockfd) start s

/-- The first `registerWrite` has happened. -/
def State.Launched (s : State) : Prop := s.caller = .waiting ∨ s.caller = .returned

/-- The stages of a transfer that fits into the first buffer. -/
inductive Stage (content : Bytes) (sockfd : Nat) (s : State) : Prop where
  | skipped : s.caller = .skipped → Stage content sockfd s
  | before : s.caller = .opened ∨ s.caller = .added → s.io = .idle →
      (s.caller = .opened → s.handler.interest sockfd = false) →
      s.handler.writeCallbacks sockfd = none → s.handler.writeBuffers sockfd = none →
      s.written = [] → Stage content sockfd s
  | writing (rest : Bytes) : s.Launched → s.io = .idle →
      s.handler.writeCallbacks sockfd = some .next →
      s.handler.writeBuffers sockfd = some rest → s.written ++ rest = content →
      Stage content sockfd s
  | calling : s.Launched → s.io = .calling .next →
      s.handler.writeCallbacks sockfd = some .next → s.written = content → Stage content sockfd s
  | done : s.Launched → (s.io = .removing ∨ s.io = .idle ∧
      s.handler.writeCallbacks sockfd = none ∧ s.handler.writeBuffers sockfd = none) →
      s.written = content → s.transferDone = true → Stage content sockfd s

variable {content : Bytes} {sockfd : Nat} {s s' : State}

theorem Start.stage (start : Start sockfd s) : Stage content sockfd s := by
  have free := start.free
  simp only [AsyncIOHandler.Registered, ne_eq, not_or, not_not] at free
  exact .before (.inl start.caller) start.io (fun _ => start.unwatched) free.1 free.2 start.written

/-- An event without a registered write does nothing. -/
theorem writeReady_free {handler : AsyncIOHandler Callback}
    (free : handler.writeBuffers sockfd = none) (n : Nat) :
    handler.writeReady sockfd n = ([], handler, none) := by
  simp [AsyncIOHandler.writeReady, free]

theorem nextBuffer_short (short : content.length ≤ asyncBufferSize) : nextBuffer content = [] := by
  rw [nextBuffer, List.drop_of_length_le short, List.take_nil]

/-- Each step of a short transfer leads from a stage to a stage. -/
theorem Stage.step (short : content.length ≤ asyncBufferSize) (stage : Stage content sockfd s)
    (one : Step content sockfd s s') : Stage content sockfd s' := by
  have whole : firstBuffer content = content := List.take_of_length_le short
  cases stage with
  | skipped caller => cases one <;> first | exact .skipped caller | simp_all
  | before caller io unwatched callbacks buffers written =>
      cases one with
      | empty now blank => exact .skipped rfl
      | add now nonblank added =>
          unfold AsyncIOHandler.add at added
          split at added
          · cases added
          · cases added
            exact .before (.inr rfl) io (fun again => by cases again) callbacks buffers written
      | refused now nonblank refused => simp [AsyncIOHandler.add, unwatched now] at refused
      | store now =>
          exact .writing (firstBuffer content) (.inl rfl) io (Function.update_self _ _ _)
            (Function.update_self _ _ _) (by rw [whole]; simp [written])
      | wake now _ => simp [now] at caller
      | event n idle watched bound =>
          rw [writeReady_free buffers]
          exact .before caller rfl unwatched callbacks buffers (by simp [written])
      | finish now _ | addNext now | refusedNext now | storeNext now | finishLast now
      | remove now => simp [io] at now
      | other agree =>
          exact .before caller io (fun now => agree.1.trans (unwatched now))
            (agree.2.1.trans callbacks) (agree.2.2.trans buffers) written
  | writing rest launched io callbacks buffers parts =>
      cases one with
      | empty now _ | add now | refused now | store now => simp [State.Launched, now] at launched
      | wake now _ => exact .writing rest (.inr rfl) io callbacks buffers parts
      | event n idle watched bound =>
          simp only [AsyncIOHandler.writeReady, buffers, callbacks]
          by_cases moved : 0 < n
          · by_cases all : n = rest.length
            · simp only [all, ↓reduceIte]
              rw [if_pos (all ▸ moved)]
              exact .calling launched rfl callbacks parts
            · simp only [moved, ↓reduceIte, all]
              refine .writing (rest.drop n) launched rfl callbacks (Function.update_self _ _ _) ?_
              rw [List.append_assoc, List.take_append_drop, parts]
          · simp only [moved, ↓reduceIte]
            exact .writing rest launched rfl callbacks buffers (by simpa using parts)
      | finish now _ | addNext now | refusedNext now | storeNext now | finishLast now
      | remove now => simp [io] at now
      | other agree =>
          exact .writing rest launched io (agree.2.1.trans callbacks)
            (agree.2.2.trans buffers) parts
  | calling launched io callbacks written =>
      cases one with
      | empty now _ | add now | refused now | store now => simp [State.Launched, now] at launched
      | wake now _ => exact .calling (.inr rfl) io callbacks written
      | finish now _ => exact .done launched (.inl rfl) written rfl
      | addNext now long more | refusedNext now long more =>
          exact absurd (nextBuffer_short short) more
      | event n now | storeNext now | finishLast now | remove now => simp [io] at now
      | other agree => exact .calling launched io (agree.2.1.trans callbacks) written
  | done launched io written finished =>
      cases one with
      | empty now _ | add now | refused now | store now => simp [State.Launched, now] at launched
      | wake now _ => exact .done (.inr rfl) io written finished
      | event n now watched bound =>
          obtain ⟨-, callbacks, buffers⟩ : _ ∧ _ ∧ _ := io.resolve_left (by simp [now])
          rw [writeReady_free buffers]
          exact .done launched (.inr ⟨rfl, callbacks, buffers⟩) (by simp [written]) finished
      | finish now _ | addNext now | refusedNext now | storeNext now | finishLast now =>
          simp [now] at io
      | remove now =>
          exact .done launched (.inr ⟨rfl, Function.update_self _ _ _, Function.update_self _ _ _⟩)
            written finished
      | other agree =>
          refine .done launched (io.imp_right fun idle => ?_) written finished
          exact ⟨idle.1, agree.2.1.trans idle.2.1, agree.2.2.trans idle.2.2⟩

/-- What a run of a short transfer never leaves. -/
theorem Reachable.stage (short : content.length ≤ asyncBufferSize)
    (reachable : Reachable content sockfd s) : Stage content sockfd s := by
  obtain ⟨start, fresh, run⟩ := reachable
  induction run with
  | refl => exact fresh.stage
  | tail _ one ih => exact ih.step short one

/-- A write that takes the whole buffer finishes it. -/
theorem writeReady_all {handler : AsyncIOHandler Callback} {data : Bytes} {callback : Callback}
    (buffers : handler.writeBuffers sockfd = some data)
    (callbacks : handler.writeCallbacks sockfd = some callback) (nonblank : data ≠ []) :
    handler.writeReady sockfd data.length = (data, handler, some callback) := by
  have some := List.length_pos_iff.2 nonblank
  simp [AsyncIOHandler.writeReady, buffers, callbacks, some]

/-- The `registerWrite` for the next buffer is refused while the first one is being finished: the
descriptor leaves epoll only after the callback. -/
theorem run_long (sockfd : Nat) (long : asyncBufferSize < content.length) :
    ∃ s, Reachable content sockfd s ∧ s.Launched ∧ ¬ s.handler.Registered sockfd ∧
      s.written = firstBuffer content ∧ s.transferDone = false := by
  have nonblank : firstBuffer content ≠ [] := by
    simp only [firstBuffer, ne_eq, List.take_eq_nil_iff, not_or]
    refine ⟨by simp [asyncBufferSize], fun blank => ?_⟩
    simp [blank] at long
  have more : nextBuffer content ≠ [] := by
    simp only [nextBuffer, ne_eq, List.take_eq_nil_iff, List.drop_eq_nil_iff, not_or, not_le]
    exact ⟨by simp [asyncBufferSize], long⟩
  let handler : AsyncIOHandler Callback := ⟨fun _ => false, fun _ => none, fun _ => none⟩
  let watching : AsyncIOHandler Callback :=
    { handler with interest := Function.update handler.interest sockfd true }
  let writing := watching.store sockfd (firstBuffer content) .next
  have buffers : writing.writeBuffers sockfd = some (firstBuffer content) :=
    Function.update_self _ _ _
  have callbacks : writing.writeCallbacks sockfd = some .next := Function.update_self _ _ _
  have watched : writing.interest sockfd = true := Function.update_self _ _ _
  have fresh : Start sockfd ⟨handler, [], false, .opened, .idle⟩ :=
    ⟨rfl, by simp [AsyncIOHandler.Registered, handler], rfl, rfl, rfl, rfl⟩
  have add : Step content sockfd ⟨handler, [], false, .opened, .idle⟩
      ⟨watching, [], false, .added, .idle⟩ := .add rfl nonblank rfl
  have store : Step content sockfd ⟨watching, [], false, .added, .idle⟩
      ⟨writing, [], false, .waiting, .idle⟩ := .store rfl
  have event : Step content sockfd ⟨writing, [], false, .waiting, .idle⟩
      ⟨writing, firstBuffer content, false, .waiting, .calling .next⟩ := by
    have one : Step content sockfd _ _ := .event (s := ⟨writing, [], false, .waiting, .idle⟩)
      (firstBuffer content).length rfl watched fun data same => by
        rw [Option.some.inj (buffers.symm.trans same)]
    simpa only [writeReady_all buffers callbacks nonblank, List.nil_append] using one
  have refused : Step content sockfd ⟨writing, firstBuffer content, false, .waiting, .calling .next⟩
      ⟨writing, firstBuffer content, false, .waiting, .removing⟩ :=
    .refusedNext rfl long.le more (if_pos watched)
  have remove : Step content sockfd ⟨writing, firstBuffer content, false, .waiting, .removing⟩
      ⟨writing.remove sockfd, firstBuffer content, false, .waiting, .idle⟩ := .remove rfl
  refine ⟨_, ⟨_, fresh, .head add (.head store (.head event (.head refused (.single remove))))⟩,
    .inl rfl, ?_, rfl, rfl⟩
  simp [AsyncIOHandler.Registered, AsyncIOHandler.remove]

/-- Once the first write has been registered, no write is registered only after the whole file
has been sent: this holds of exactly the files that fit into one buffer. -/
theorem sendFileViaAsyncIO_delivers_iff :
    (∀ s, Reachable content sockfd s → s.Launched → ¬ s.handler.Registered sockfd →
      s.written = content ∧ s.transferDone = true) ↔ content.length ≤ asyncBufferSize := by
  constructor
  · intro delivers
    by_contra long
    obtain ⟨s, reachable, launched, free, -, waiting⟩ := run_long sockfd (Nat.lt_of_not_le long)
    have done := (delivers s reachable launched free).2
    rw [waiting] at done
    cases done
  · intro short s reachable launched free
    simp only [AsyncIOHandler.Registered, ne_eq, not_or, not_not] at free
    cases reachable.stage short with
    | skipped caller => simp [State.Launched, caller] at launched
    | before caller => rcases caller with
        caller | caller <;> simp [State.Launched, caller] at launched
    | writing rest _ _ callbacks | calling _ _ callbacks => simp [free.1] at callbacks
    | done _ _ written finished => exact ⟨written, finished⟩

/-- One byte too many for the first buffer: the caller waits for ever with that byte unsent. -/
theorem sendFileViaAsyncIO_two_buffers :
    ∃ s, Reachable (List.replicate 8193 0) 7 s ∧ s.Launched ∧ ¬ s.handler.Registered 7 ∧
      s.written = List.replicate 8192 0 ∧ s.transferDone = false := by
  have long : asyncBufferSize < (List.replicate 8193 (0 : UInt8)).length := by
    rw [List.length_replicate]
    decide
  obtain ⟨s, reachable, launched, free, written, waiting⟩ := run_long 7 long
  refine ⟨s, reachable, launched, free, ?_, waiting⟩
  rw [written, firstBuffer, List.take_replicate]
  rfl

end AsyncSend

end SyncTool
