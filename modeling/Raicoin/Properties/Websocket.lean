import Mathlib.Data.List.Nodup
import Raicoin.Secure.Websocket

-- What a client writes, and when a message leaves its queue.
namespace Raicoin

open Lib

section Log

variable (log : List WebsocketEvent)

def acceptedIn : List QueuedMessage :=
  log.filterMap fun
    | .accepted m => some m
    | _ => none

def writtenIn : List QueuedMessage :=
  log.filterMap fun
    | .written _ m => some m
    | _ => none

def succeededIn : List QueuedMessage :=
  log.filterMap fun
    | .succeeded m => some m
    | _ => none

def leftIn : List QueuedMessage :=
  log.filterMap fun
    | .left m => some m
    | _ => none

-- No message is written after its write has succeeded.
def WrittenOnce : Prop :=
  log.Pairwise fun earlier later => ∀ m, earlier = .succeeded m → ∀ stream, later ≠ .written stream m

variable {log}

theorem succeeded_mem {m : QueuedMessage} (h : .succeeded m ∈ log) : m ∈ succeededIn log :=
  List.mem_filterMap.mpr ⟨_, h, rfl⟩

end Log

section Erase

variable {α : Type} {l : List α} {f : α → Nat} {k : Nat} {a x : α}

private theorem ne_of_mem_eraseIdx (h : (l.map f).Nodup) (ha : l[k]? = some a)
    (hx : x ∈ l.eraseIdx k) : f x ≠ f a := by
  obtain ⟨hk, rfl⟩ := List.getElem?_eq_some_iff.mp ha
  obtain ⟨i, hi, hne, rfl⟩ := List.mem_eraseIdx_iff_getElem.mp hx
  intro heq
  have hi' : i < (l.map f).length := by simpa using hi
  have hk' : k < (l.map f).length := by simpa using hk
  have hsame : (l.map f)[i] = (l.map f)[k] := by simpa using heq
  exact hne (h.getElem_inj_iff.mp hsame)

private theorem mem_eraseIdx_of_ne (ha : l[k]? = some a) (hx : x ∈ l) (hne : x ≠ a) :
    x ∈ l.eraseIdx k := by
  obtain ⟨hk, rfl⟩ := List.getElem?_eq_some_iff.mp ha
  obtain ⟨i, hi, rfl⟩ := List.mem_iff_getElem.mp hx
  refine List.mem_eraseIdx_iff_getElem.mpr ⟨i, hi, ?_, rfl⟩
  rintro rfl
  exact hne rfl

end Erase

namespace WebsocketClient

structure SendsInOrder (c : WebsocketClient) : Prop where
  one_write : (c.writes.map Writing.stream).Nodup
  front : ∀ w ∈ c.writes, w.stream = c.streams → c.sendQueue.head? = some w.message
  left_sent : leftIn c.log = succeededIn c.log
  none_lost : acceptedIn c.log = (leftIn c.log ++ c.sendQueue).filter QueuedMessage.isGiven
  numbered : (acceptedIn c.log).Pairwise fun m m' => m.number < m'.number
  in_order : ((writtenIn c.log).filter QueuedMessage.isGiven).Pairwise fun m m' => m.number ≤ m'.number
  written_once : WrittenOnce c.log
  in_flight : c.status = .CONNECTED → c.sendQueue ≠ [] → ∃ w ∈ c.writes, w.stream = c.streams

-- No keeplive jumps over a message that is being written, and no completion is so late that
-- the numbers of the sessions have come round to its own.
def Meets (c : WebsocketClient) : WebsocketAction → Prop
  | .run now _ => c.status = .CONNECTED → c.keeplive = true → c.keepliveDue now →
      ∀ w ∈ c.writes, w.stream ≠ c.streams
  | .connected index _ _ => ∀ done ∈ c.connects[index]?,
      done.sessionId = c.sessionId → done.stream = c.streams
  | .sent index _ _ => ∀ done ∈ c.writes[index]?,
      done.sessionId = c.sessionId → done.stream = c.streams
  | .send _ | .received _ _ _ _ _ | .close => True

instance (c : WebsocketClient) (action : WebsocketAction) : Decidable (c.Meets action) :=
  match action with
  | .run now _ => inferInstanceAs (Decidable (c.status = .CONNECTED → c.keeplive = true →
      c.keepliveDue now → ∀ w ∈ c.writes, w.stream ≠ c.streams))
  | .connected index _ _ => inferInstanceAs (Decidable (∀ done ∈ c.connects[index]?,
      done.sessionId = c.sessionId → done.stream = c.streams))
  | .sent index _ _ => inferInstanceAs (Decidable (∀ done ∈ c.writes[index]?,
      done.sessionId = c.sessionId → done.stream = c.streams))
  | .send _ | .received _ _ _ _ _ | .close => isTrue trivial

-- The connection, and what has been queued and written.
structure Based (c : WebsocketClient) : Prop where
  last : ∀ stream, c.stream = some stream → stream = c.streams
  opened : c.status ≠ .DISCONNECTED → c.stream ≠ none
  stops : c.stopped = true → c.status = .DISCONNECTED
  connect_le : ∀ done ∈ c.connects, done.stream ≤ c.streams
  connects : ∀ done ∈ c.connects, done.stream = c.streams → c.stopped = false →
    c.status = .CONNECTING
  one_connect : (c.connects.map Connecting.stream).Nodup
  write_le : ∀ w ∈ c.writes, w.stream ≤ c.streams
  write_session : ∀ w ∈ c.writes, w.stream = c.streams → w.sessionId = c.sessionId
  one_write : (c.writes.map Writing.stream).Nodup
  numbers : (leftIn c.log ++ c.sendQueue).map QueuedMessage.number = List.range c.queued
  left_sent : leftIn c.log = succeededIn c.log
  none_lost : acceptedIn c.log = (leftIn c.log ++ c.sendQueue).filter QueuedMessage.isGiven
  written_le : ∀ m ∈ writtenIn c.log, m.number ≤ (leftIn c.log).length
  in_order : (writtenIn c.log).Pairwise fun m m' => m.number ≤ m'.number
  written_once : WrittenOnce c.log

-- What the flag says about the writes.
structure Flows (c : WebsocketClient) : Prop where
  sends : ∀ w ∈ c.writes, w.stream = c.streams → c.sending = true
  front : ∀ w ∈ c.writes, w.stream = c.streams → c.sendQueue.head? = some w.message
  idle : c.status = .CONNECTING → c.sending = false
  busy : c.status = .CONNECTED → c.sending = true → ∃ w ∈ c.writes, w.stream = c.streams

structure Orderly (c : WebsocketClient) : Prop where
  based : c.Based
  flows : c.Flows
  sent_all : c.status = .CONNECTED → c.sending = false → c.sendQueue = []

variable {c : WebsocketClient}

theorem Based.head_number (h : c.Based) {m : QueuedMessage} {rest : List QueuedMessage}
    (hqueue : c.sendQueue = m :: rest) : m.number = (leftIn c.log).length := by
  have hat := congrArg (fun numbers => numbers[(leftIn c.log).length]?) h.numbers
  rw [hqueue] at hat
  simp only [List.map_append, List.map_cons] at hat
  rw [List.getElem?_append_right (by simp)] at hat
  simp only [List.length_map, Nat.sub_self, List.getElem?_cons_zero] at hat
  have hrange := List.getElem?_eq_some_iff.mp hat.symm
  obtain ⟨_, hvalue⟩ := hrange
  rw [List.getElem_range] at hvalue
  exact hvalue.symm

theorem Based.left_number (h : c.Based) {m : QueuedMessage} (hm : m ∈ leftIn c.log) :
    m.number < (leftIn c.log).length := by
  obtain ⟨i, hi, rfl⟩ := List.mem_iff_getElem.mp hm
  have hat := congrArg (fun numbers => numbers[i]?) h.numbers
  simp only [List.map_append] at hat
  rw [List.getElem?_append_left (by simpa using hi), List.getElem?_map,
    List.getElem?_eq_getElem hi, Option.map_some] at hat
  obtain ⟨_, hvalue⟩ := List.getElem?_eq_some_iff.mp hat.symm
  rw [List.getElem_range] at hvalue
  omega

theorem Based.sending (h : c.Based) (sending : Bool) : ({ c with sending } : WebsocketClient).Based :=
  { h with }

-- What `Send_` does: it starts the write of the front, or finds nothing to do.
theorem send_cases (c : WebsocketClient) :
    (c.send_ = { c with sending := false } ∧
      (c.sendQueue = [] ∨ c.stream = none ∨ c.status ≠ .CONNECTED)) ∨
    ∃ m rest stream, c.sendQueue = m :: rest ∧ c.stream = some stream ∧ c.status = .CONNECTED ∧
      c.send_ = note { c with writes := c.writes ++ [⟨stream, c.sessionId, m⟩] } (.written stream m) := by
  unfold send_
  split
  · rename_i m rest stream hqueue hstream
    split
    · rename_i hconnected
      exact .inr ⟨m, rest, stream, hqueue, hstream, hconnected, rfl⟩
    · rename_i hconnected
      exact .inl ⟨rfl, .inr (.inr hconnected)⟩
  · rename_i hnone
    refine .inl ⟨rfl, ?_⟩
    cases hqueue : c.sendQueue with
    | nil => exact .inl rfl
    | cons m rest =>
        cases hstream : c.stream with
        | none => exact .inr (.inl rfl)
        | some stream => exact absurd hstream (hnone m rest stream hqueue)

private theorem Based.writes (h : c.Based) {m : QueuedMessage} {rest : List QueuedMessage}
    {stream : Nat} (hqueue : c.sendQueue = m :: rest) (hstream : c.stream = some stream)
    (hnone : ∀ w ∈ c.writes, w.stream ≠ c.streams) :
    (note { c with writes := c.writes ++ [⟨stream, c.sessionId, m⟩] } (.written stream m)).Based := by
  have hlast := h.last stream hstream
  have hnumber := h.head_number hqueue
  refine { h with
    write_le := ?_, write_session := ?_, one_write := ?_, numbers := ?_, left_sent := ?_
    none_lost := ?_, written_le := ?_, in_order := ?_, written_once := ?_ }
  · intro w hw
    rcases List.mem_append.mp hw with hw | hw
    · exact h.write_le w hw
    · rw [List.mem_singleton.mp hw]
      exact Nat.le_of_eq hlast
  · intro w hw hcurrent
    rcases List.mem_append.mp hw with hw | hw
    · exact h.write_session w hw hcurrent
    · rw [List.mem_singleton.mp hw]
      rfl
  · have hfresh : stream ∉ c.writes.map Writing.stream := by
      intro hmem
      obtain ⟨w, hw, hsame⟩ := List.mem_map.mp hmem
      exact hnone w hw (hsame.trans hlast)
    simp only [note, List.map_append, List.map_cons, List.map_nil]
    exact List.nodup_append.mpr ⟨h.one_write, List.nodup_singleton _, by
      intro a ha b hb heq
      rw [List.mem_singleton.mp hb] at heq
      exact hfresh (heq ▸ ha)⟩
  · simpa [note, leftIn] using h.numbers
  · simpa [note, leftIn, succeededIn] using h.left_sent
  · simpa [note, leftIn, acceptedIn] using h.none_lost
  · intro w hw
    have hw' : w ∈ writtenIn c.log ∨ w = m := by simpa [note, writtenIn] using hw
    have hleft : leftIn (c.log ++ [.written stream m]) = leftIn c.log := by simp [leftIn]
    rw [note, hleft]
    rcases hw' with hw | rfl
    · exact h.written_le w hw
    · exact Nat.le_of_eq hnumber
  · have hwritten : writtenIn (c.log ++ [.written stream m]) = writtenIn c.log ++ [m] := by
      simp [writtenIn]
    rw [note, hwritten, List.pairwise_append]
    refine ⟨h.in_order, List.pairwise_singleton _ _, fun a ha b hb => ?_⟩
    rw [List.mem_singleton.mp hb, hnumber]
    exact h.written_le a ha
  · refine List.pairwise_append.mpr ⟨h.written_once, List.pairwise_singleton _ _, ?_⟩
    rintro e he e' he' m' rfl stream' rfl
    have hsame : m' = m := by
      have hwritten := List.mem_singleton.mp he'
      injection hwritten
    have hbefore := h.left_number (h.left_sent ▸ succeeded_mem he)
    rw [hsame] at hbefore
    omega

-- A write that is started has the front of the queue.
theorem send_orderly (h : c.Based) (hnone : ∀ w ∈ c.writes, w.stream ≠ c.streams)
    (hsending : c.sending = true) : c.send_.Orderly := by
  rcases send_cases c with ⟨heq, hwhy⟩ | ⟨m, rest, stream, hqueue, hstream, hconnected, heq⟩
  · rw [heq]
    refine ⟨h.sending false, ⟨fun w hw hlast => absurd hlast (hnone w hw),
      fun w hw hlast => absurd hlast (hnone w hw), fun _ => rfl, fun _ hbusy => (by cases hbusy)⟩,
      fun hconnected _ => ?_⟩
    rcases hwhy with hwhy | hwhy | hwhy
    · exact hwhy
    · exact absurd hwhy (h.opened (by rw [show c.status = .CONNECTED from hconnected]; decide))
    · exact absurd hconnected hwhy
  · rw [heq]
    have hwriting : ⟨stream, c.sessionId, m⟩ ∈ c.writes ++ [(⟨stream, c.sessionId, m⟩ : Writing)] :=
      List.mem_append_right _ (List.mem_singleton_self _)
    refine ⟨h.writes hqueue hstream hnone, ⟨fun _ _ _ => hsending, fun w hw hcurrent => ?_,
      fun hconnecting => ?_, fun _ _ => ⟨_, hwriting, h.last stream hstream⟩⟩, fun _ hidle => ?_⟩
    · rcases List.mem_append.mp hw with hw | hw
      · exact absurd hcurrent (hnone w hw)
      · rw [List.mem_singleton.mp hw]
        exact congrArg List.head? hqueue
    · exact absurd (hconnecting.symm.trans hconnected) (by decide)
    · exact absurd (hidle.symm.trans hsending) (by decide)

theorem trySend_orderly (h : c.Based) (hflows : c.Flows) : c.trySend_.Orderly := by
  unfold trySend_
  split
  · rename_i hsending
    exact ⟨h, hflows, fun _ hidle => absurd (hidle.symm.trans hsending) (by decide)⟩
  · rename_i hidle
    exact send_orderly (h.sending true) (fun w hw hlast => hidle (hflows.sends w hw hlast)) rfl

theorem pushBack_orderly (h : c.Orderly) (text : String) :
    (c.pushBack (.given text)).trySend_.Orderly := by
  refine trySend_orderly ?_ { h.flows with front := ?_ }
  · refine { h.based with
      numbers := ?_, left_sent := ?_, none_lost := ?_, written_le := ?_, in_order := ?_
      written_once := ?_ }
    · have hnumbers := h.based.numbers
      simp only [pushBack, note, leftIn, List.filterMap_append, List.map_append,
        List.range_succ] at hnumbers ⊢
      simp [← hnumbers]
    · simpa [pushBack, note, leftIn, succeededIn] using h.based.left_sent
    · have haccepted := h.based.none_lost
      simp only [pushBack, note, leftIn, acceptedIn, List.filterMap_append,
        List.filter_append] at haccepted ⊢
      simp only [haccepted, List.append_assoc, List.append_cancel_left_eq]
      rfl
    · simpa [pushBack, note, leftIn, writtenIn] using h.based.written_le
    · simpa [pushBack, note, writtenIn] using h.based.in_order
    · refine List.pairwise_append.mpr ⟨h.based.written_once, List.pairwise_singleton _ _, ?_⟩
      intro e he e' he' m hsucceeded stream hwritten
      rw [List.mem_singleton.mp he'] at hwritten
      cases hwritten
  · intro w hw hcurrent
    have hfront := h.flows.front w hw hcurrent
    obtain ⟨rest, hqueue⟩ := List.head?_eq_some_iff.mp hfront
    change (c.sendQueue ++ [_]).head? = _
    rw [hqueue]
    rfl

-- A keeplive that nothing is written under waits alone in the queue.
theorem keeplive_orderly (h : c.Orderly) (hconnected : c.status = .CONNECTED)
    (hnone : ∀ w ∈ c.writes, w.stream ≠ c.streams) (timestamp : UInt64) :
    (c.sendKeeplive_ timestamp).Orderly := by
  have hidle : c.sending = false := by
    cases hsending : c.sending with
    | false => rfl
    | true =>
        obtain ⟨w, hw, hcurrent⟩ := h.flows.busy hconnected hsending
        exact absurd hcurrent (hnone w hw)
  have hempty := h.sent_all hconnected hidle
  refine trySend_orderly ?_ { h.flows with front := fun w hw hcurrent => absurd hcurrent (hnone w hw) }
  refine { h.based with numbers := ?_, none_lost := ?_ }
  · have hnumbers := h.based.numbers
    simp only [pushFront, hempty, List.append_nil, List.map_append, List.range_succ] at hnumbers ⊢
    simp [← hnumbers]
  · have haccepted := h.based.none_lost
    simp only [pushFront, hempty, List.append_nil, List.filter_append] at haccepted ⊢
    simp [haccepted, QueuedMessage.isGiven]

theorem popFront_writes (c : WebsocketClient) : c.popFront.writes = c.writes := by
  unfold popFront
  split
  · rfl
  · rfl

theorem popFront_streams (c : WebsocketClient) : c.popFront.streams = c.streams := by
  unfold popFront
  split
  · rfl
  · rfl

theorem popFront_sending (c : WebsocketClient) : c.popFront.sending = c.sending := by
  unfold popFront
  split
  · rfl
  · rfl

-- The front leaves when its write has succeeded.
theorem Based.pops (h : c.Based) {m : QueuedMessage} {rest : List QueuedMessage}
    (hqueue : c.sendQueue = m :: rest) : (c.note (.succeeded m)).popFront.Based := by
  have heq : (c.note (.succeeded m)).popFront =
      note { c.note (.succeeded m) with sendQueue := rest } (.left m) := by
    unfold popFront
    rw [show (c.note (.succeeded m)).sendQueue = m :: rest from hqueue]
  rw [heq]
  refine { h with
    numbers := ?_, left_sent := ?_, none_lost := ?_, written_le := ?_, in_order := ?_
    written_once := ?_ }
  · simpa [note, leftIn, hqueue] using h.numbers
  · simpa [note, leftIn, succeededIn] using h.left_sent
  · simpa [note, leftIn, acceptedIn, hqueue] using h.none_lost
  · intro w hw
    have hbefore : w.number ≤ (leftIn c.log).length :=
      h.written_le w (by simpa [note, writtenIn] using hw)
    simp only [note, leftIn, List.filterMap_append, List.length_append] at hbefore ⊢
    omega
  · simpa [note, writtenIn] using h.in_order
  · have hone := h.written_once
    unfold WrittenOnce at hone ⊢
    simp only [note, List.pairwise_append, List.mem_append, List.mem_singleton,
      List.pairwise_singleton]
    refine ⟨⟨hone, trivial, ?_⟩, trivial, ?_⟩
    · rintro e he e' rfl m' hsucceeded stream hwritten
      cases hwritten
    · rintro e he e' rfl m' hsucceeded stream hwritten
      cases hwritten

theorem disconnect_orderly (h : c.Based) (hconnects : ∀ done ∈ c.connects, done.stream = c.streams →
      c.stopped = true)
    (hsends : ∀ w ∈ c.writes, w.stream = c.streams → c.sending = true)
    (hfront : ∀ w ∈ c.writes, w.stream = c.streams → c.sendQueue.head? = some w.message) :
    c.disconnect.Orderly := by
  refine ⟨{ h with
    last := fun stream hstream => (by cases hstream)
    opened := fun hne => absurd rfl hne
    stops := fun _ => rfl
    connects := fun done hdone hcurrent hgoing =>
      absurd ((hconnects done hdone hcurrent).symm.trans hgoing) (by decide) },
    ⟨hsends, hfront, fun hconnecting => (by cases hconnecting), fun hconnected => (by cases hconnected)⟩,
    fun hconnected => (by cases hconnected)⟩

theorem reconnect_orderly (h : c.Orderly) (hgoing : c.stopped = false) (now : Nat) :
    (c.reconnect now).Orderly := by
  have hconnect {done : Connecting} (hdone : done ∈ c.connects) : done.stream ≠ c.streams + 1 := by
    have hle := h.based.connect_le done hdone
    omega
  have hwrite {w : Writing} (hw : w ∈ c.writes) : w.stream ≠ c.streams + 1 := by
    have hle := h.based.write_le w hw
    omega
  refine ⟨{ h.based with
    last := fun stream hstream => (Option.some.inj hstream).symm
    opened := fun _ hnone => (by cases hnone)
    stops := fun hstopped => absurd (hstopped.symm.trans hgoing) (by decide)
    connect_le := ?_
    connects := fun _ _ _ _ => rfl
    one_connect := ?_
    write_le := fun w hw => Nat.le_succ_of_le (h.based.write_le w hw)
    write_session := fun w hw hcurrent => absurd hcurrent (hwrite hw) },
    ⟨fun w hw hcurrent => absurd hcurrent (hwrite hw), fun w hw hcurrent => absurd hcurrent (hwrite hw),
      fun _ => rfl, fun hconnected => (by cases hconnected)⟩, fun hconnected => (by cases hconnected)⟩
  · intro done hdone
    rcases List.mem_append.mp hdone with hdone | hdone
    · exact Nat.le_succ_of_le (h.based.connect_le done hdone)
    · rw [List.mem_singleton.mp hdone]
      exact Nat.le_refl _
  · simp only [reconnect, List.map_append, List.map_cons, List.map_nil]
    refine List.nodup_append.mpr ⟨h.based.one_connect, List.nodup_singleton _, ?_⟩
    intro a ha b hb heq
    obtain ⟨done, hdone, rfl⟩ := List.mem_map.mp ha
    exact hconnect hdone (heq.trans (List.mem_singleton.mp hb))

theorem send_message_orderly (h : c.Orderly) (message : String) : (c.send message).Orderly := by
  unfold send
  split
  · exact h
  split
  · exact h
  exact pushBack_orderly h message

theorem retry_orderly (h : c.Orderly) (hgoing : c.stopped = false) (now : Nat) :
    (c.retry now).Orderly := by
  unfold retry
  split
  · exact h
  exact reconnect_orderly h hgoing now

-- The times of the keeplives say nothing about the queue.
theorem times_orderly (h : c.Orderly) (keepliveSentAt keepliveReceivedAt : Nat) :
    ({ c with keepliveSentAt, keepliveReceivedAt } : WebsocketClient).Orderly :=
  ⟨{ h.based with }, { h.flows with }, h.sent_all⟩

theorem send_stopped (c : WebsocketClient) : c.send_.stopped = c.stopped := by
  rcases send_cases c with ⟨heq, -⟩ | ⟨m, rest, stream, -, -, -, heq⟩
  · rw [heq]
  · rw [heq]
    rfl

theorem trySend_stopped (c : WebsocketClient) : c.trySend_.stopped = c.stopped := by
  unfold trySend_
  split
  · rfl
  · exact send_stopped _

theorem checkKeeplive_orderly (h : c.Orderly) (hconnected : c.status = .CONNECTED) {now : Nat}
    (hmeets : c.keepliveDue now → ∀ w ∈ c.writes, w.stream ≠ c.streams) (timestamp : UInt64) :
    (c.checkKeeplive now timestamp).Orderly ∧
      (c.checkKeeplive now timestamp).stopped = c.stopped := by
  have hsent : (if c.keepliveDue now then { c.sendKeeplive_ timestamp with keepliveSentAt := now }
      else c).Orderly ∧
      (if c.keepliveDue now then { c.sendKeeplive_ timestamp with keepliveSentAt := now }
        else c).stopped = c.stopped := by
    split
    · rename_i hdue
      have hkeeplive := keeplive_orderly h hconnected (hmeets hdue) timestamp
      exact ⟨times_orderly hkeeplive now _, trySend_stopped _⟩
    · exact ⟨h, rfl⟩
  unfold checkKeeplive
  dsimp only
  generalize (if c.keepliveDue now then { c.sendKeeplive_ timestamp with keepliveSentAt := now }
    else c) = c' at hsent ⊢
  split
  · exact ⟨times_orderly hsent.1 _ now, hsent.2⟩
  · exact hsent

theorem run_orderly (h : c.Orderly) {now : Nat} {timestamp : UInt64}
    (hmeets : c.Meets (.run now timestamp)) : (c.run now timestamp).Orderly := by
  unfold run
  split
  · exact h
  rename_i hgoing
  rw [Bool.not_eq_true] at hgoing
  split
  · rename_i hconnected
    split
    · exact h
    rename_i hkeeplive
    rw [Bool.not_eq_false] at hkeeplive
    obtain ⟨hchecked, hstopped⟩ :=
      checkKeeplive_orderly h hconnected (hmeets hconnected hkeeplive) timestamp
    dsimp only
    split
    · exact hchecked
    · exact retry_orderly hchecked (hstopped.trans hgoing) now
  · exact retry_orderly h hgoing now

-- The operation at an index is over.
theorem Based.completes (h : c.Based) (index : Nat) :
    ({ c with writes := c.writes.eraseIdx index } : WebsocketClient).Based :=
  { h with
    write_le := fun w hw => h.write_le w (List.mem_of_mem_eraseIdx hw)
    write_session := fun w hw => h.write_session w (List.mem_of_mem_eraseIdx hw)
    one_write := h.one_write.sublist ((List.eraseIdx_sublist _ _).map _) }

theorem sent_orderly (h : c.Orderly) {index : Nat} {failed : Bool} {size : Nat}
    (hmeets : c.Meets (.sent index failed size)) : (c.take (.sent index failed size)).Orderly := by
  unfold take
  dsimp only
  cases hdone : c.writes[index]? with
  | none => exact h
  | some done =>
      have hmem : done ∈ c.writes := List.mem_of_getElem? hdone
      have hkept {w : Writing} (hw : w ∈ c.writes.eraseIdx index) : w ∈ c.writes :=
        List.mem_of_mem_eraseIdx hw
      have hother {w : Writing} (hw : w ∈ c.writes.eraseIdx index) : w.stream ≠ done.stream :=
        ne_of_mem_eraseIdx h.based.one_write hdone hw
      dsimp only
      unfold onSend
      split
      · rename_i hturned
        refine ⟨h.based.completes index, { h.flows with
          sends := fun w hw => h.flows.sends w (hkept hw)
          front := fun w hw => h.flows.front w (hkept hw)
          busy := fun hconnected hsending => ?_ }, h.sent_all⟩
        -- the completion was of another session, so that the write in progress is another one
        obtain ⟨w, hw, hcurrent⟩ := h.flows.busy hconnected hsending
        refine ⟨w, mem_eraseIdx_of_ne hdone hw ?_, hcurrent⟩
        rintro rfl
        have hsession := h.based.write_session w hmem hcurrent
        rcases hturned with hstopped | hsessions | hstatus
        · exact absurd ((h.based.stops hstopped).symm.trans hconnected) (by decide)
        · exact hsessions hsession
        · exact hstatus hconnected
      rename_i htaken
      simp only [not_or, Decidable.not_not] at htaken
      obtain ⟨-, hsession, hconnected⟩ := htaken
      have hcurrent : done.stream = c.streams := hmeets done hdone hsession
      split
      · refine disconnect_orderly (h.based.completes index) (fun other hother hlast => ?_)
          (fun w hw => h.flows.sends w (hkept hw)) (fun w hw => h.flows.front w (hkept hw))
        rw [← Bool.not_eq_false]
        intro hgoing
        have hconnecting := h.based.connects other hother hlast hgoing
        exact absurd (hconnecting.symm.trans hconnected) (by decide)
      · have hfront := h.flows.front done hmem hcurrent
        obtain ⟨rest, hqueue⟩ := List.head?_eq_some_iff.mp hfront
        have hpops := (h.based.completes index).pops hqueue
        refine send_orderly hpops ?_ ?_
        · simp only [popFront_writes, popFront_streams]
          exact fun w hw hlast => hother hw (hlast.trans hcurrent.symm)
        · rw [popFront_sending]
          exact h.flows.sends done hmem hcurrent

-- What is known when an operation of the last session completes.
structure Completes (c : WebsocketClient) (done : Connecting) : Prop where
  current : done.stream = c.streams
  connecting : c.status = .CONNECTING
  alone : ∀ other ∈ c.connects, other.stream ≠ c.streams

theorem Completes.disconnect_orderly {done : Connecting} (hdone : c.Completes done) (h : c.Orderly) :
    c.disconnect.Orderly :=
  WebsocketClient.disconnect_orderly h.based (fun other hin hlast => absurd hlast (hdone.alone other hin))
    h.flows.sends h.flows.front

theorem Completes.proceed_orderly {done : Connecting} (hdone : c.Completes done) (h : c.Orderly)
    (stage : ConnectStage) : (c.proceed done stage).Orderly := by
  refine ⟨{ h.based with connect_le := ?_, connects := fun _ _ _ _ => hdone.connecting
                         one_connect := ?_ }, { h.flows with }, h.sent_all⟩
  · intro other hin
    rcases List.mem_append.mp hin with hin | hin
    · exact h.based.connect_le other hin
    · rw [List.mem_singleton.mp hin]
      exact Nat.le_of_eq hdone.current
  · simp only [proceed, List.map_append, List.map_cons, List.map_nil]
    refine List.nodup_append.mpr ⟨h.based.one_connect, List.nodup_singleton _, ?_⟩
    intro a ha b hb heq
    obtain ⟨other, hin, rfl⟩ := List.mem_map.mp ha
    exact hdone.alone other hin ((heq.trans (List.mem_singleton.mp hb)).trans hdone.current)

theorem Completes.handshake_orderly {done : Connecting} (hdone : c.Completes done) (h : c.Orderly)
    (hgoing : c.stopped = false) (keepliveSentAt keepliveReceivedAt : Nat) :
    (trySend_ { c with status := .CONNECTED, keepliveSentAt, keepliveReceivedAt }).Orderly := by
  refine trySend_orderly { h.based with
    opened := fun _ => h.based.opened (by rw [hdone.connecting]; decide)
    stops := fun hstopped => absurd (hstopped.symm.trans hgoing) (by decide)
    connects := fun other hin hlast => absurd hlast (hdone.alone other hin) } { h.flows with
    idle := fun hconnecting => (by cases hconnecting)
    busy := fun _ hsending =>
      absurd (hsending.symm.trans (h.flows.idle hdone.connecting)) (by decide) }

theorem onConnected_orderly (h : c.Orderly) {done : Connecting} {failed nameFailed : Bool}
    (hdone : c.stopped = false → done.sessionId = c.sessionId → c.Completes done) :
    (c.onConnected done failed nameFailed).Orderly := by
  by_cases hturned : c.stopped = true ∨ done.sessionId ≠ c.sessionId
  · unfold onConnected onResolve onConnect onSslHandshake onWebsocketHandshake
    simp only [if_pos hturned]
    split <;> exact h
  have htaken := hturned
  simp only [not_or, Decidable.not_not, Bool.not_eq_true] at htaken
  have hcompletes := hdone htaken.1 htaken.2
  unfold onConnected onResolve onConnect onSslHandshake onWebsocketHandshake
  simp only [if_neg hturned]
  cases failed with
  | true =>
      simp only [if_true]
      split <;> exact hcompletes.disconnect_orderly h
  | false =>
      simp only [Bool.false_eq_true, if_false]
      cases done.stage with
      | resolve => exact hcompletes.proceed_orderly h _
      | connect =>
          dsimp only
          split
          · split
            · exact hcompletes.disconnect_orderly h
            · exact hcompletes.proceed_orderly h _
          · exact hcompletes.proceed_orderly h _
      | sslHandshake => exact hcompletes.proceed_orderly h _
      | websocketHandshake =>
          dsimp only
          split
          · exact hcompletes.handshake_orderly h htaken.1 0 0
          · exact hcompletes.handshake_orderly h htaken.1 _ _

theorem connected_orderly (h : c.Orderly) {index : Nat} {failed nameFailed : Bool}
    (hmeets : c.Meets (.connected index failed nameFailed)) :
    (c.take (.connected index failed nameFailed)).Orderly := by
  unfold take
  dsimp only
  cases hdone : c.connects[index]? with
  | none => exact h
  | some done =>
      have hmem : done ∈ c.connects := List.mem_of_getElem? hdone
      have hother {other : Connecting} (hin : other ∈ c.connects.eraseIdx index) :
          other.stream ≠ done.stream :=
        ne_of_mem_eraseIdx h.based.one_connect hdone hin
      have hcompletes : ({ c with connects := c.connects.eraseIdx index } : WebsocketClient).Orderly :=
        ⟨{ h.based with
          connect_le := fun other hin => h.based.connect_le other (List.mem_of_mem_eraseIdx hin)
          connects := fun other hin => h.based.connects other (List.mem_of_mem_eraseIdx hin)
          one_connect := h.based.one_connect.sublist ((List.eraseIdx_sublist _ _).map _) },
          { h.flows with }, h.sent_all⟩
      exact onConnected_orderly hcompletes fun hgoing hsession =>
        have hcurrent := hmeets done hdone hsession
        ⟨hcurrent, h.based.connects done hmem hcurrent hgoing,
          fun other hin hlast => hother hin (hlast.trans hcurrent.symm)⟩

theorem received_orderly (h : c.Orderly) (sessionId : UInt32) (failed : Bool) (size : Nat)
    (keepliveAck : Bool) (now : Nat) :
    (c.onReceive sessionId failed size keepliveAck now).Orderly := by
  unfold onReceive
  split
  · exact h
  rename_i htaken
  simp only [not_or, Decidable.not_not] at htaken
  split
  · refine disconnect_orderly h.based (fun other hin hlast => ?_) h.flows.sends h.flows.front
    rw [← Bool.not_eq_false]
    intro hgoing
    have hconnecting := h.based.connects other hin hlast hgoing
    exact absurd (hconnecting.symm.trans htaken.2.2) (by decide)
  split
  · exact times_orderly h _ now
  · exact h

theorem close_orderly (h : c.Orderly) : c.close.Orderly := by
  have hstopped (hstatus : c.status = .DISCONNECTED) :
      ({ c with stopped := true } : WebsocketClient).Orderly :=
    ⟨{ h.based with
      stops := fun _ => hstatus
      connects := fun _ _ _ hgoing => (by cases hgoing) }, { h.flows with }, h.sent_all⟩
  unfold close
  split
  · exact h
  split
  · rename_i hclosed
    refine hstopped ?_
    rcases hclosed with hnone | hstatus
    · by_contra hstatus
      exact h.based.opened hstatus hnone
    · exact hstatus
  · exact ⟨{ h.based with
      last := fun stream hstream => (by cases hstream)
      opened := fun hne => absurd rfl hne
      stops := fun _ => rfl
      connects := fun _ _ _ hgoing => (by cases hgoing) },
      { h.flows with
        idle := fun hconnecting => (by cases hconnecting)
        busy := fun hconnected => (by cases hconnected) }, fun hconnected => (by cases hconnected)⟩

theorem take_orderly (h : c.Orderly) {action : WebsocketAction} (hmeets : c.Meets action) :
    (c.take action).Orderly := by
  cases action with
  | send message => exact send_message_orderly h message
  | run now timestamp => exact run_orderly h hmeets
  | connected index failed nameFailed => exact connected_orderly h hmeets
  | sent index failed size => exact sent_orderly h hmeets
  | received sessionId failed size keepliveAck now => exact received_orderly h _ _ _ _ _
  | close => exact close_orderly h

theorem fresh_orderly (ssl keeplive : Bool) : (fresh ssl keeplive).Orderly := by
  constructor
  · constructor <;> simp [fresh, leftIn, succeededIn, acceptedIn, writtenIn, WrittenOnce]
  · constructor <;> simp [fresh]
  · simp [fresh]

theorem Orderly.sendsInOrder (h : c.Orderly) : c.SendsInOrder where
  one_write := h.based.one_write
  front := h.flows.front
  left_sent := h.based.left_sent
  none_lost := h.based.none_lost
  numbered := by
    have hsorted : (leftIn c.log ++ c.sendQueue).Pairwise fun m m' => m.number < m'.number := by
      rw [← List.pairwise_map, h.based.numbers]
      exact List.pairwise_lt_range
    rw [h.based.none_lost]
    exact hsorted.sublist List.filter_sublist
  in_order := h.based.in_order.sublist List.filter_sublist
  written_once := h.based.written_once
  in_flight := by
    intro hconnected hqueue
    refine h.flows.busy hconnected ?_
    rw [← Bool.not_eq_false]
    exact fun hidle => hqueue (h.sent_all hconnected hidle)

end WebsocketClient

variable {history : History WebsocketClient WebsocketAction} {c : WebsocketClient}

-- In every run whose steps all meet the condition.
theorem messages_sent_in_order
    (h : websocketMachine.Run (fun history _ => ∀ taken ∈ history, taken.1.Meets taken.2) history c) :
    c.SendsInOrder := by
  have horderly : c.Orderly := by
    refine h.invariant (P := fun _ c => c.Orderly) ?_ ?_
    · rintro _ ⟨ssl, keeplive, rfl⟩
      exact WebsocketClient.fresh_orderly ssl keeplive
    · intro history c action _ _ hallowed horderly
      exact WebsocketClient.take_orderly horderly (hallowed _ List.mem_cons_self)
  exact horderly.sendsInOrder

-- A client with keeplives connects and is given a message.
def connectSteps : List WebsocketAction :=
  [.run (seconds 100) 0, .connected 0 false false, .connected 0 false false,
    .connected 0 false false, .send "block"]

def websocketRun (actions : List WebsocketAction) :
    History WebsocketClient WebsocketAction × WebsocketClient :=
  websocketMachine.exec (.fresh false true) actions

-- The connection breaks while the second message is being written. It is written again on the next
-- one, where the completion of the old write comes to nothing, and the keeplive waits until all has
-- been sent.
def patientSteps : List WebsocketAction :=
  [.send "first", .run (seconds 100) 0, .connected 0 false false, .connected 0 false false,
    .connected 0 false false, .send "second", .sent 0 false 1, .received 1 true 0 false 0,
    .run (seconds 111) 1, .connected 0 false false, .connected 0 false false,
    .connected 0 false false, .sent 0 false 1, .send "third", .sent 0 false 1, .sent 0 false 1,
    .run (seconds 112) 2, .send "last", .sent 0 false 1]

theorem patient_fits : ∀ taken ∈ (websocketRun patientSteps).1, taken.1.Fits taken.2 := by
  decide

theorem patient_meets : ∀ taken ∈ (websocketRun patientSteps).1, taken.1.Meets taken.2 := by
  decide

theorem patient_in_order : (websocketRun patientSteps).2.SendsInOrder ∧
    leftIn (websocketRun patientSteps).2.log = [⟨.given "first", 0⟩, ⟨.given "second", 1⟩,
      ⟨.given "third", 2⟩, ⟨.keeplive 2, 3⟩] ∧
    writtenIn (websocketRun patientSteps).2.log = [⟨.given "first", 0⟩, ⟨.given "second", 1⟩,
      ⟨.given "second", 1⟩, ⟨.given "third", 2⟩, ⟨.keeplive 2, 3⟩, ⟨.given "last", 4⟩] := by
  refine ⟨messages_sent_in_order (Machine.exec_run_of_fits ⟨false, true, rfl⟩
    (fun _ hn => patient_fits _ (Machine.taken_mem_exec hn))
      fun _ _ taken htaken => patient_meets taken (Machine.mem_exec_of_take htaken)), ?_⟩
  decide

-- The client runs while the message is being written: when that write succeeds, the keeplive
-- leaves in place of the message, which is written again.
def hastySteps : List WebsocketAction := connectSteps ++ [.run (seconds 101) 1, .sent 0 false 1]

theorem hasty_fits : ∀ n (h : n < hastySteps.length),
    (websocketRun (hastySteps.take n)).2.Fits hastySteps[n] := by
  decide

theorem keeplive_jumps :
    websocketMachine.Run (fun _ _ => True) (websocketRun hastySteps).1 (websocketRun hastySteps).2 ∧
      leftIn (websocketRun hastySteps).2.log ≠ succeededIn (websocketRun hastySteps).2.log ∧
      ¬WrittenOnce (websocketRun hastySteps).2.log ∧ ¬(websocketRun hastySteps).2.SendsInOrder := by
  have hleft : leftIn (websocketRun hastySteps).2.log ≠ succeededIn (websocketRun hastySteps).2.log := by
    decide
  have hagain : ¬WrittenOnce (websocketRun hastySteps).2.log := by
    intro h
    refine List.pairwise_iff_getElem.mp h 2 4 ?_ ?_ ?_ ⟨.given "block", 0⟩ ?_ 1 ?_
    all_goals decide
  exact ⟨Machine.exec_run_of_fits ⟨false, true, rfl⟩ hasty_fits fun _ _ => trivial, hleft, hagain,
    fun h => hleft h.left_sent⟩

end Raicoin
