import Raicoin.Node.Bootstrap.ReadSpec
import Raicoin.Node.Bootstrap.Runs
import Raicoin.Node.Bootstrap.Server

-- One request and its answer: what the server sends, and what the client makes of it.
namespace Raicoin

open Lib

section Loops

variable {ι : Type} {write : ι → List UInt8} {mark : List UInt8}

-- A server that sends the entries and then the mark.
theorem BootstrapServer.answer_entries {step : BootstrapServer → BootstrapServer × ServerStep}
    {Ready : BootstrapServer → List ι → Prop} {Done : BootstrapServer → Bool → Prop}
    (hentry : ∀ s i rest, Ready s (i :: rest) → ∃ s', step s = (s', .send (write i)) ∧ Ready s' rest)
    (hmark : ∀ s, Ready s [] → ∃ s', step s = (s', .send mark) ∧
      (step s' = (s', .stop) ∧ Done s' false ∨ step s' = (s', .receive) ∧ Done s' true))
    {entries : List ι} {s : BootstrapServer} (hready : Ready s entries) (fuel : Nat)
    (hfuel : entries.length + 2 ≤ fuel) :
    ∃ s' receiving, answer step fuel s = (s', (entries.map write).flatten ++ mark, receiving) ∧
      Done s' receiving := by
  induction entries generalizing s fuel with
  | nil =>
      obtain ⟨fuel, rfl⟩ := Nat.exists_eq_add_of_le' hfuel
      obtain ⟨s', hstep, hlast⟩ := hmark s hready
      rcases hlast with ⟨hstop, hdone⟩ | ⟨hreceive, hdone⟩
      · refine ⟨s', false, ?_, hdone⟩
        simp [answer, hstep, hstop]
      · refine ⟨s', true, ?_, hdone⟩
        simp [answer, hstep, hreceive]
  | cons i rest ih =>
      rw [List.length_cons] at hfuel
      obtain ⟨fuel, rfl⟩ := Nat.exists_eq_add_of_le' (show 1 ≤ fuel by omega)
      obtain ⟨s', hstep, hnext⟩ := hentry s i rest hready
      obtain ⟨s'', receiving, hanswer, hdone⟩ := ih hnext fuel (by omega)
      refine ⟨s'', receiving, ?_, hdone⟩
      rw [answer, hstep]
      dsimp only
      rw [hanswer, List.map_cons, List.flatten_cons, List.append_assoc]

theorem BootstrapSession.loop_returns {env : Env} {s : BootstrapSession} (h : s.returns = true)
    (fuel : Nat) : s.loop env (fuel + 1) = .ok s.end_ := by
  rw [loop, h, if_pos rfl]

theorem BootstrapSession.loop_round {env : Env} {s s' : BootstrapSession} (h : s.returns = false)
    (hround : s.round env = .ok s') (fuel : Nat) :
    s.loop env (fuel + 1) = s'.loop env fuel := by
  rw [loop, h, if_neg (by decide), hround]
  rfl

-- A client that reads the entries and then the mark.
theorem BootstrapSession.loop_entries {env : Env} {Ready : BootstrapClient → List ι → Prop}
    {Done : BootstrapClient → Prop}
    (hentry : ∀ c i rest stream, Ready c (i :: rest) →
      (⟨c, write i ++ stream⟩ : BootstrapSession).returns = false ∧
        ∃ c', (⟨c, write i ++ stream⟩ : BootstrapSession).round env = .ok ⟨c', stream⟩ ∧
          Ready c' rest)
    (hmark : ∀ c stream, Ready c [] →
      (⟨c, mark ++ stream⟩ : BootstrapSession).returns = false ∧
        ∃ c', (⟨c, mark ++ stream⟩ : BootstrapSession).round env = .ok ⟨c', stream⟩ ∧
          (⟨c', stream⟩ : BootstrapSession).returns = true ∧
          Done (⟨c', stream⟩ : BootstrapSession).end_.client)
    {entries : List ι} {c : BootstrapClient} (hready : Ready c entries) (fuel : Nat)
    (hfuel : entries.length + 2 ≤ fuel) (stream : List UInt8) :
    ∃ c', (⟨c, (entries.map write).flatten ++ (mark ++ stream)⟩ : BootstrapSession).loop env fuel =
      .ok ⟨c', stream⟩ ∧ Done c' := by
  induction entries generalizing c fuel with
  | nil =>
      obtain ⟨fuel, rfl⟩ := Nat.exists_eq_add_of_le' hfuel
      obtain ⟨hgoes, c', hround, hreturns, hdone⟩ := hmark c stream hready
      refine ⟨_, ?_, hdone⟩
      calc (⟨c, mark ++ stream⟩ : BootstrapSession).loop env (fuel + 1 + 1)
          = (⟨c', stream⟩ : BootstrapSession).loop env (fuel + 1) := loop_round hgoes hround _
        _ = .ok (⟨c', stream⟩ : BootstrapSession).end_ := loop_returns hreturns _
        _ = .ok ⟨(⟨c', stream⟩ : BootstrapSession).end_.client, stream⟩ := by
            unfold end_
            split <;> rfl
  | cons i rest ih =>
      rw [List.length_cons] at hfuel
      obtain ⟨fuel, rfl⟩ := Nat.exists_eq_add_of_le' (show 1 ≤ fuel by omega)
      obtain ⟨hgoes, c', hround, hnext⟩ :=
        hentry c i rest ((rest.map write).flatten ++ (mark ++ stream)) hready
      obtain ⟨c'', hloop, hdone⟩ := ih hnext fuel (by omega)
      refine ⟨c'', ?_, hdone⟩
      rw [List.map_cons, List.flatten_cons, List.append_assoc, loop_round hgoes hround, hloop]

end Loops

section Serving

variable {α : Type}

-- `found` goes over the keys in the order of their places.
structure Serves (found : BootstrapServer → Option (BootstrapServer × List UInt8))
    (place : α → Nat) (keys : List α) (cursor : Account → UInt64 → Nat)
    (write : α → List UInt8) : Prop where
  missing : ∀ s, nextEntry place keys (cursor s.next s.height) = none → found s = none
  present : ∀ s key, nextEntry place keys (cursor s.next s.height) = some key → ∃ next height,
    found s = some ({ s with next, height }, write key) ∧ cursor next height = place key + 1

variable {found : BootstrapServer → Option (BootstrapServer × List UInt8)} {place : α → Nat}
  {keys : List α} {cursor : Account → UInt64 → Nat} {write : α → List UInt8} {mark : List UInt8}

-- The server has `batch` to send before the end of a batch of `n`.
structure SendsPage (place : α → Nat) (keys : List α) (cursor : Account → UInt64 → Nat)
    (type : Option BootstrapType) (n : Nat) (s : BootstrapServer) (batch : List α) : Prop where
  going : s.finished = false ∧ s.continue_ = true
  page_eq : batch = page place keys (s.maxSize.toNat - s.count.toNat) (cursor s.next s.height)
  type : s.type = type
  limit : s.count.toNat ≤ s.maxSize.toNat
  positive : 0 < s.maxSize.toNat
  total : s.count.toNat + batch.length = n

-- The batch has been sent: it was the last one where it was empty.
structure Answered (type : Option BootstrapType) (n : Nat) (s : BootstrapServer)
    (receiving : Bool) : Prop where
  finished : s.finished = decide (n = 0)
  receiving : receiving = decide (n ≠ 0)
  type : s.type = type

theorem Serves.next (h : Serves found place keys cursor write) (mark : List UInt8)
    {type : Option BootstrapType} {n : Nat} {s : BootstrapServer} {key : α} {rest : List α}
    (hs : SendsPage place keys cursor type n s (key :: rest)) :
    ∃ s', s.serve found mark = (s', .send (write key)) ∧ SendsPage place keys cursor type n s' rest := by
  have hpage := hs.page_eq
  have hroom : s.count.toNat < s.maxSize.toNat := by
    by_contra hfull
    rw [show s.maxSize.toNat - s.count.toNat = 0 by omega, page] at hpage
    cases hpage
  obtain ⟨size, hsize⟩ := Nat.exists_eq_add_of_le' (show 1 ≤ s.maxSize.toNat - s.count.toNat by omega)
  rw [hsize, page] at hpage
  split at hpage
  · cases hpage
  rename_i found_key hnext
  cases hpage
  obtain ⟨next, height, hfound, hcursor⟩ := h.present s key hnext
  have hcount : (s.count + 1).toNat = s.count.toNat + 1 := by
    have hmax := s.maxSize.toNat_lt
    rw [UInt16.toNat_add]
    exact Nat.mod_eq_of_lt (by simp; omega)
  have htotal := hs.total
  rw [List.length_cons] at htotal
  refine ⟨{ s with next, height, count := s.count + 1 }, ?_, hs.going, ?_, hs.type, ?_,
    hs.positive, ?_⟩
  · unfold BootstrapServer.serve
    rw [if_neg (by rw [hs.going.1]; decide), if_neg (by rw [hs.going.2]; decide),
      if_pos (UInt16.lt_iff_toNat_lt.mpr hroom), hfound]
  · dsimp only
    rw [hcursor, hcount, show s.maxSize.toNat - (s.count.toNat + 1) = size by omega]
  · dsimp only
    omega
  · dsimp only
    omega

theorem Serves.ends (h : Serves found place keys cursor write) {type : Option BootstrapType}
    {n : Nat} {s : BootstrapServer} (hs : SendsPage place keys cursor type n s []) :
    ∃ s', s.serve found mark = (s', .send mark) ∧
      (s'.serve found mark = (s', .stop) ∧ Answered type n s' false ∨
        s'.serve found mark = (s', .receive) ∧ Answered type n s' true) := by
  have htotal : s.count.toNat = n := by
    have htotal := hs.total
    rwa [List.length_nil, Nat.add_zero] at htotal
  obtain ⟨hfinished, hcontinue⟩ := hs.going
  by_cases hroom : s.count < s.maxSize
  · have hlt := UInt16.lt_iff_toNat_lt.mp hroom
    have hpage := hs.page_eq
    obtain ⟨size, hsize⟩ :=
      Nat.exists_eq_add_of_le' (show 1 ≤ s.maxSize.toNat - s.count.toNat by omega)
    rw [hsize, page] at hpage
    split at hpage
    · rename_i hnone
      refine ⟨{ s with
        finished := if s.count = 0 then true else s.finished
        continue_ := false }, ?_, ?_⟩
      · unfold BootstrapServer.serve
        rw [hfinished, hcontinue, if_neg (by decide), if_neg (by decide), if_pos hroom,
          h.missing s hnone]
      · unfold BootstrapServer.serve
        by_cases hzero : s.count = 0
        · have hn : n = 0 := by rw [← htotal, hzero]; rfl
          left
          simp only [if_pos hzero, if_true, true_and]
          exact ⟨by simp [hn], by simp [hn], hs.type⟩
        · have hn : n ≠ 0 := fun hn => hzero (UInt16.toNat_inj.mp (htotal.trans hn))
          right
          simp only [if_neg hzero, hfinished, if_true, true_and, Bool.false_eq_true, if_false]
          exact ⟨by simp [hn], by simp [hn], hs.type⟩
    · cases hpage
  · have hle := UInt16.le_iff_toNat_le.mp (UInt16.not_lt.mp hroom)
    have hpos := hs.positive
    have hn : n ≠ 0 := by omega
    refine ⟨{ s with continue_ := false }, ?_, .inr ⟨?_, ?_⟩⟩
    · unfold BootstrapServer.serve
      rw [hfinished, hcontinue, if_neg (by decide), if_neg (by decide), if_neg hroom]
    · unfold BootstrapServer.serve
      simp [hfinished]
    · exact ⟨by simp [hn, hfinished], by simp [hn], hs.type⟩

-- The answer to a request is one page, and the mark.
theorem Serves.answer (h : Serves found place keys cursor write) (mark : List UInt8)
    {s : BootstrapServer} (hfinished : s.finished = false) (hmax : 0 < s.maxSize.toNat) :
    ∃ s' receiving,
      BootstrapServer.answer (BootstrapServer.serve · found mark) (s.maxSize.toNat + 3)
          { s with count := 0, continue_ := true } =
        (s', ((page place keys s.maxSize.toNat (cursor s.next s.height)).map write).flatten ++ mark,
          receiving) ∧
      Answered s.type (page place keys s.maxSize.toNat (cursor s.next s.height)).length s'
        receiving := by
  have hready : SendsPage place keys cursor s.type
      (page place keys s.maxSize.toNat (cursor s.next s.height)).length
      { s with count := 0, continue_ := true }
      (page place keys s.maxSize.toNat (cursor s.next s.height)) :=
    ⟨⟨hfinished, rfl⟩, rfl, rfl, Nat.zero_le _, hmax, Nat.zero_add _⟩
  have hentry : ∀ s' key rest,
      SendsPage place keys cursor s.type
        (page place keys s.maxSize.toNat (cursor s.next s.height)).length s' (key :: rest) → _ :=
    fun s' key rest hs => h.next mark hs
  refine BootstrapServer.answer_entries hentry (fun s' hs => h.ends hs) hready _ ?_
  have hle : (page place keys s.maxSize.toNat (cursor s.next s.height)).length ≤ s.maxSize.toNat :=
    page_length_le _ _
  omega

end Serving

end Raicoin
