import Raicoin.App.Bootstrap

-- A pass of an app's bootstrap goes over all accounts.
namespace Raicoin

open Lib

section Pages

variable (t : BootstrapTables) (types : List BlockType)

-- An account of the types, with what the node tells of it.
def Asked (account : Account) (info : AccountInfo) : Prop :=
  t.accounts.get account = some info ∧ info.valid = true ∧ info.type ∈ types

-- The heads of all accounts below a place have been given.
def Covered (given : List AccountHead) (bound : Nat) : Prop :=
  ∀ account info, Asked t types account info → account.toNat < bound →
    ⟨account, info.head, info.headHeight⟩ ∈ given

def BootstrapTables.Followed : Prop :=
  ∀ account info, t.accounts.get account = some info → account.toNat + 1 < 2 ^ 256

variable {t types}

theorem Covered.mono {given given' : List AccountHead} {bound bound' : Nat}
    (h : Covered t types given bound) (hgiven : given ⊆ given') (hbound : bound' ≤ bound) :
    Covered t types given' bound' :=
  fun account info hasked hlt => hgiven (h account info hasked (Nat.lt_of_lt_of_le hlt hbound))

theorem covered_zero (given : List AccountHead) : Covered t types given 0 :=
  fun _ _ _ hlt => absurd hlt (Nat.not_lt_zero _)

theorem nextAccountInfo_none {next : Account} (h : t.nextAccountInfo next = none)
    {account : Account} {info : AccountInfo} (hget : t.accounts.get account = some info) :
    account.toNat < next.toNat := by
  have hmem := (t.accounts.mem_inOrder accountPlace_injective account).mpr ⟨info, hget⟩
  cases hentry : nextEntry accountPlace (t.accounts.inOrder accountPlace accountPlace_injective)
      (accountPlace next) with
  | none =>
      have hbelow : ¬accountPlace next ≤ accountPlace account := by
        simpa using List.find?_eq_none.mp hentry account hmem
      exact Nat.not_le.mp hbelow
  | some key =>
      obtain ⟨info', hinfo'⟩ := (t.accounts.mem_inOrder accountPlace_injective key).mp
        (List.mem_of_find?_eq_some hentry)
      rw [BootstrapTables.nextAccountInfo, hentry] at h
      simp [hinfo'] at h

theorem nextAccountInfo_some {next found : Account} {foundInfo : AccountInfo}
    (h : t.nextAccountInfo next = some (found, foundInfo)) :
    t.accounts.get found = some foundInfo ∧ next.toNat ≤ found.toNat ∧
      ∀ account info, t.accounts.get account = some info → next.toNat ≤ account.toNat →
        found.toNat ≤ account.toNat := by
  unfold BootstrapTables.nextAccountInfo at h
  obtain ⟨key, hentry, h⟩ := Option.bind_eq_some_iff.mp h
  obtain ⟨info, hinfo, h⟩ := Option.bind_eq_some_iff.mp h
  cases h
  have hplace := List.find?_some hentry
  refine ⟨hinfo, of_decide_eq_true hplace, ?_⟩
  intro account info' hget hle
  have hmem := (t.accounts.mem_inOrder accountPlace_injective account).mpr ⟨info', hget⟩
  have hsorted := t.accounts.pairwise_inOrder accountPlace_injective
  obtain ⟨-, before, after, hsplit, hbefore⟩ := List.find?_eq_some_iff_append.mp hentry
  rw [hsplit] at hmem hsorted
  rcases List.mem_append.mp hmem with hmem | hmem
  · have hbelow : ¬accountPlace next ≤ accountPlace account := by simpa using hbefore account hmem
    exact absurd hle hbelow
  · rcases List.mem_cons.mp hmem with rfl | hmem
    · exact Nat.le_refl _
    · have hpair := (List.pairwise_cons.mp (List.pairwise_append.mp hsorted).2.1).1 account hmem
      exact Nat.le_of_lt hpair

-- A page has all accounts from where it begins to where the next one begins, or to the end.
theorem page_covers (ht : t.Followed) (count : Nat) (next : Account) {account : Account}
    {info : AccountInfo} (hasked : Asked t types account info) (hfrom : next.toNat ≤ account.toNat)
    (hto : (accountHeadsPage t types count next).more = true →
      account.toNat < (accountHeadsPage t types count next).next.toNat) :
    ⟨account, info.head, info.headHeight⟩ ∈ (accountHeadsPage t types count next).heads := by
  induction count generalizing next with
  | zero =>
      have hlt := hto rfl
      change account.toNat < next.toNat at hlt
      omega
  | succ count ih =>
      unfold accountHeadsPage at hto ⊢
      cases hnext : t.nextAccountInfo next with
      | none =>
          have hlt := nextAccountInfo_none hnext hasked.1
          omega
      | some entry =>
          obtain ⟨found, foundInfo⟩ := entry
          obtain ⟨hget, hle, hfirst⟩ := nextAccountInfo_some hnext
          have hplace := hfirst account info hasked.1 hfrom
          have hafter : (found + 1).toNat = found.toNat + 1 := by
            have hone : (1 : Account).toNat = 1 := rfl
            rw [BitVec.toNat_add, hone, Nat.mod_eq_of_lt (ht found foundInfo hget)]
          rw [hnext] at hto
          dsimp only at hto ⊢
          by_cases hsame : account = found
          · subst hsame
            cases hasked.1.symm.trans hget
            rw [if_pos ⟨hasked.2.1, hasked.2.2⟩]
            exact List.mem_cons_self
          · have hne : account.toNat ≠ found.toNat := fun heq => hsame (BitVec.eq_of_toNat_eq heq)
            have hrest := ih (found + 1) (by omega)
            split at hto
            · rename_i hshown
              rw [if_pos hshown]
              exact List.mem_cons_of_mem _ (hrest hto)
            · rename_i hshown
              rw [if_neg hshown]
              exact hrest hto

theorem mapM_id_map_some {α : Type} (l : List α) : (l.map some).mapM id = some l := by
  induction l with
  | nil => rfl
  | cons a l ih =>
      rw [List.map_cons, List.mapM_cons, ih]
      rfl

end Pages

namespace AppBootstrap

variable (t : BootstrapTables) (types : List BlockType)

-- The requests that have been made, sent or not.
def made (s : AppBootstrap) : List HeadsCall := s.calls ++ s.requests.map HeadsRequest.call

-- The id, which has 64 bits, has not come round since the request was made.
def Timely (s : AppBootstrap) : AppBootstrapAction → Prop
  | .receive index _ _ _ => ∀ r ∈ s.requests[index]?, s.numbers < r.call.number + 2 ^ 64
  | .run _ _ | .reset | .stop | .send _ => True

-- A reply that ends a pass over all accounts is the last that was missing.
def EndsComplete (s : AppBootstrap) (action : AppBootstrapAction) : Prop :=
  ∀ index reply ready now, action = .receive index reply ready now →
    s.running = true → (s.take action).running = false → full s.count = true →
    ∀ account info, Asked t types account info →
      ⟨account, info.head, info.headHeight⟩ ∈ (s.take action).given

-- A reply to a request of an earlier pass changes nothing.
def IgnoresStale (s : AppBootstrap) (action : AppBootstrapAction) : Prop :=
  ∀ index reply ready now r, action = .receive index reply ready now →
    s.requests[index]? = some r → r.call.pass < s.passes → s.take action = s

-- Requests under the last id are of the last pass, and everything before them has come.
structure Tracked (s : AppBootstrap) : Prop where
  last_id : s.requestId = UInt64.ofNat s.numbers
  ids : ∀ call ∈ s.made, call.requestId = UInt64.ofNat call.number
  numbers : ∀ call ∈ s.made, call.number ≤ s.numbers
  pass : ∀ call ∈ s.made, call.number = s.numbers → call.pass = s.passes
  kind : ∀ r ∈ s.requests, r.call.number = s.numbers → r.active = !full s.count
  next : full s.count = true → Covered t types s.given s.next.toNat
  calls : full s.count = true → ∀ call ∈ s.made, call.number = s.numbers →
    Covered t types s.given call.next.toNat

variable {t types} {s : AppBootstrap}

theorem fresh_tracked : (fresh).Tracked t types where
  last_id := rfl
  ids := fun _ h => (by cases h)
  numbers := fun _ h => (by cases h)
  pass := fun _ h => (by cases h)
  kind := fun _ h => (by cases h)
  next := fun _ => covered_zero _
  calls := fun _ _ h => (by cases h)

-- Under a new id nothing has been asked yet, so that anything may begin from the start.
theorem Tracked.renew (h : s.Tracked t types) {s' : AppBootstrap} (hid : s'.requestId = s.requestId + 1)
    (hnumbers : s'.numbers = s.numbers + 1) (hcalls : s'.calls = s.calls)
    (hrequests : s'.requests = s.requests)
    (hnext : full s'.count = true → Covered t types s'.given s'.next.toNat) : s'.Tracked t types := by
  have hmade : s'.made = s.made := by rw [made, made, hcalls, hrequests]
  have hold {call : HeadsCall} (hcall : call ∈ s.made) : call.number ≠ s'.numbers := by
    have hle := h.numbers call hcall
    omega
  constructor
  · rw [hid, hnumbers, h.last_id, UInt64.ofNat_add]
    rfl
  · rw [hmade]
    exact h.ids
  · intro call hcall
    rw [hmade] at hcall
    have hle := h.numbers call hcall
    omega
  · intro call hcall heq
    exact absurd heq (hold (hmade ▸ hcall))
  · intro r hr heq
    rw [hrequests] at hr
    exact absurd heq (hold (List.mem_append_right _ (List.mem_map_of_mem hr)))
  · exact hnext
  · intro _ call hcall heq
    exact absurd heq (hold (hmade ▸ hcall))

-- A request that asks for what comes next.
theorem Tracked.asks (h : s.Tracked t types) {now : Nat} :
    (s.sendRequest_ now false).Tracked t types := by
  have hmade {call : HeadsCall} (hcall : call ∈ (s.sendRequest_ now false).made) :
      call ∈ s.made ∨ call = s.call := by
    simp only [sendRequest_, made, Bool.false_eq_true, if_false, List.mem_append,
      List.mem_singleton] at hcall ⊢
    tauto
  refine { h with ids := ?_, numbers := ?_, pass := ?_, calls := ?_ }
  · intro call hcall
    rcases hmade hcall with hcall | rfl
    · exact h.ids call hcall
    · exact h.last_id
  · intro call hcall
    rcases hmade hcall with hcall | rfl
    · exact h.numbers call hcall
    · exact Nat.le_refl _
  · intro call hcall heq
    rcases hmade hcall with hcall | rfl
    · exact h.pass call hcall heq
    · rfl
  · intro hfull call hcall heq
    rcases hmade hcall with hcall | rfl
    · exact h.calls hfull call hcall heq
    · exact h.next hfull

theorem Tracked.gives (h : s.Tracked t types) (heads : List AccountHead) :
    (s.processAccountHeads heads).Tracked t types :=
  { h with
    next := fun hfull => (h.next hfull).mono (List.subset_append_left _ _) (Nat.le_refl _)
    calls := fun hfull call hcall heq =>
      (h.calls hfull call hcall heq).mono (List.subset_append_left _ _) (Nat.le_refl _) }

theorem advance_gives (more : Bool) (next : Account) (ready : Bool) (now : Nat)
    (heads : List AccountHead) : (s.advance more next ready now).processAccountHeads heads =
      (s.processAccountHeads heads).advance more next ready now := by
  cases more with
  | false => rfl
  | true => cases ready <;> rfl

theorem Tracked.advances (h : s.Tracked t types) {more : Bool} {next : Account}
    (hnext : full s.count = true → more = true → Covered t types s.given next.toNat)
    (ready : Bool) (now : Nat) : (s.advance more next ready now).Tracked t types := by
  cases more with
  | false => exact { h with next := fun _ => covered_zero _ }
  | true =>
      have hmoved : ({ s with next } : AppBootstrap).Tracked t types :=
        { h with next := fun hfull => hnext hfull rfl }
      cases ready with
      | false => exact hmoved
      | true => exact (hmoved.renew rfl rfl rfl rfl hmoved.next : (increaseId _).Tracked t types).asks

theorem Tracked.run (h : s.Tracked t types) (ready : Bool) (now : Nat) :
    (s.run ready now).Tracked t types := by
  unfold AppBootstrap.run
  split
  · exact h
  split
  · exact h
  have hstarted : (if s.running = true then s else s.startPass now).Tracked t types := by
    split
    · exact h
    · exact h.renew rfl rfl rfl rfl fun _ => covered_zero _
  dsimp only
  generalize (if s.running = true then s else s.startPass now) = started at hstarted ⊢
  split
  · exact hstarted
  · exact hstarted.asks

theorem Tracked.reset (h : s.Tracked t types) : s.reset.Tracked t types := by
  unfold AppBootstrap.reset
  split
  · exact h
  · exact h.renew rfl rfl rfl rfl fun _ => covered_zero _

theorem Tracked.send (h : s.Tracked t types) (index : Nat) : (s.send index).Tracked t types := by
  unfold AppBootstrap.send
  cases hcall : s.calls[index]? with
  | none => exact h
  | some call =>
      have hin : call ∈ s.made := List.mem_append_left _ (List.mem_of_getElem? hcall)
      have hmade {other : HeadsCall} (hother : other ∈ AppBootstrap.made
          { s with calls := s.calls.eraseIdx index, requests := s.requests ++ [⟨call, !full s.count⟩] }) :
          other ∈ s.made := by
        simp only [made, List.map_append, List.map_cons, List.map_nil, List.mem_append,
          List.mem_singleton] at hother ⊢
        rcases hother with hother | hother | rfl
        · exact .inl (List.mem_of_mem_eraseIdx hother)
        · exact .inr hother
        · exact List.mem_append.mp hin
      refine { h with
        ids := fun other hother => h.ids other (hmade hother)
        numbers := fun other hother => h.numbers other (hmade hother)
        pass := fun other hother => h.pass other (hmade hother)
        calls := fun hfull other hother => h.calls hfull other (hmade hother)
        kind := ?_ }
      intro r hr heq
      rcases List.mem_append.mp hr with hr | hr
      · exact h.kind r hr heq
      · rw [List.mem_singleton.mp hr]

-- A reply that is taken is one to a request under the last id.
theorem Tracked.number_eq (h : s.Tracked t types) {r : HeadsRequest} (hr : r ∈ s.requests)
    (htimely : s.numbers < r.call.number + 2 ^ 64) (hid : r.call.requestId = s.requestId) :
    r.call.number = s.numbers := by
  have hmade : r.call ∈ s.made := List.mem_append_right _ (List.mem_map_of_mem hr)
  have hle := h.numbers _ hmade
  rw [h.ids _ hmade, h.last_id] at hid
  have hmod := congrArg UInt64.toNat hid
  simp only [UInt64.toNat_ofNat'] at hmod
  omega

-- What a reply that is not turned away does.
theorem receive_cases (s : AppBootstrap) (reply : HeadsReply) (ready : Bool) (now : Nat) :
    s.receiveAccountHeadMessage reply ready now = s ∨
      ∃ more next, reply.requestId = some s.requestId ∧ reply.more = some more ∧
        reply.next = some next ∧
        s.receiveAccountHeadMessage reply ready now =
          (s.processAccountHeads ((reply.heads.mapM id).getD [])).advance more next ready now := by
  unfold receiveAccountHeadMessage
  split
  · rename_i requestId more next hid hmore hnext
    split
    · exact .inl rfl
    rename_i htaken
    simp only [not_or, Decidable.not_not] at htaken
    refine .inr ⟨more, next, by rw [hid, htaken.2.2], hmore, hnext, ?_⟩
    cases reply.heads.mapM id with
    | none =>
        have hsame : s.processAccountHeads [] = s := by
          simp [processAccountHeads]
        rw [Option.getD_none, hsame]
    | some heads => exact advance_gives more next ready now heads
  · exact .inl rfl

-- With a page that was asked for under the last id, everything before its end has come.
theorem Tracked.page (h : s.Tracked t types) (ht : t.Followed) {r : HeadsRequest}
    (hr : r ∈ s.requests) (hnumber : r.call.number = s.numbers) (hfull : full s.count = true)
    {account : Account} {info : AccountInfo} (hasked : Asked t types account info)
    (hto : (accountHeadsPage t types 1000 r.call.next).more = true →
      account.toNat < (accountHeadsPage t types 1000 r.call.next).next.toNat) :
    ⟨account, info.head, info.headHeight⟩ ∈
      s.given ++ (accountHeadsPage t types 1000 r.call.next).heads := by
  have hmade : r.call ∈ s.made := List.mem_append_right _ (List.mem_map_of_mem hr)
  by_cases hbefore : account.toNat < r.call.next.toNat
  · exact List.mem_append_left _ (h.calls hfull _ hmade hnumber account info hasked hbefore)
  · exact List.mem_append_right _ (page_covers ht 1000 r.call.next hasked (Nat.not_lt.mp hbefore) hto)

theorem Tracked.receive (h : s.Tracked t types) (ht : t.Followed) {index : Nat} {reply : HeadsReply}
    {ready : Bool} {now : Nat} (hfits : s.Fits t types (.receive index reply ready now))
    (htimely : s.Timely (.receive index reply ready now)) :
    (s.take (.receive index reply ready now)).Tracked t types ∧
      s.EndsComplete t types (.receive index reply ready now) ∧
      s.IgnoresStale (.receive index reply ready now) := by
  obtain ⟨r, hrequest, hid, hreply⟩ := hfits
  have hr : r ∈ s.requests := List.mem_of_getElem? hrequest
  rcases receive_cases s reply ready now with hsame | ⟨more, next, htaken, hmore, hnext, heq⟩
  · have htake : s.take (.receive index reply ready now) = s := hsame
    refine ⟨by rwa [htake], ?_, ?_⟩
    · rintro _ _ _ _ ⟨⟩ hrunning hended
      rw [htake, hrunning] at hended
      cases hended
    · rintro _ _ _ _ _ ⟨⟩ _ _
      exact htake
  have hnumber : r.call.number = s.numbers := by
    rw [hid] at htaken
    exact h.number_eq hr (htimely r hrequest) (Option.some.inj htaken)
  have hpass := h.pass r.call (List.mem_append_right _ (List.mem_map_of_mem hr)) hnumber
  have hpage (hfull : full s.count = true) :
      (accountHeadsPage t types 1000 r.call.next).more = more ∧
        (accountHeadsPage t types 1000 r.call.next).next = next ∧
        (reply.heads.mapM id).getD [] = (accountHeadsPage t types 1000 r.call.next).heads := by
    have hall := hreply (by rw [h.kind r hr hnumber, hfull]; rfl)
    have hcount : (headsCount HEADS_COUNT).toNat = 1000 := by decide
    rw [hall, accountHeads, hcount] at hmore hnext ⊢
    refine ⟨Option.some.inj hmore, Option.some.inj hnext, ?_⟩
    dsimp only
    rw [mapM_id_map_some, Option.getD_some]
  refine ⟨?_, ?_, ?_⟩
  · rw [show s.take (.receive index reply ready now) = _ from heq]
    refine (h.gives _).advances ?_ ready now
    intro hfull hgoes account info hasked hlt
    obtain ⟨hpageMore, hpageNext, hheads⟩ := hpage hfull
    rw [hheads]
    exact h.page ht hr hnumber hfull hasked fun _ => by rwa [hpageNext]
  · rintro _ _ _ _ ⟨⟩ hrunning hended hfull account info hasked
    obtain ⟨hpageMore, -, hheads⟩ := hpage hfull
    rw [show s.take (.receive index reply ready now) = _ from heq] at hended ⊢
    have hlast : more = false := by
      cases more with
      | false => rfl
      | true =>
          cases ready with
          | false => exact absurd (hrunning.symm.trans hended) (by decide)
          | true => exact absurd (hrunning.symm.trans hended) (by decide)
    rw [hlast] at hpageMore ⊢
    rw [hheads]
    exact h.page ht hr hnumber hfull hasked fun hgoes =>
      absurd (hgoes.symm.trans hpageMore) (by decide)
  · rintro _ _ _ _ r' ⟨⟩ hrequest' hearlier
    cases hrequest.symm.trans hrequest'
    omega

variable (t types) in
-- Every step of a run of this kind.
theorem Tracked.take (h : s.Tracked t types) (ht : t.Followed) {action : AppBootstrapAction}
    (hfits : s.Fits t types action) (htimely : s.Timely action) :
    (s.take action).Tracked t types ∧ s.EndsComplete t types action ∧ s.IgnoresStale action := by
  have hother (hne : ∀ index reply ready now, action ≠ .receive index reply ready now) :
      s.EndsComplete t types action ∧ s.IgnoresStale action :=
    ⟨fun index reply ready now heq => absurd heq (hne index reply ready now),
      fun index reply ready now _ heq => absurd heq (hne index reply ready now)⟩
  cases action with
  | run ready now => exact ⟨h.run ready now, hother fun _ _ _ _ heq => by cases heq⟩
  | reset => exact ⟨h.reset, hother fun _ _ _ _ heq => by cases heq⟩
  | stop => exact ⟨{ h with }, hother fun _ _ _ _ heq => by cases heq⟩
  | send index => exact ⟨h.send index, hother fun _ _ _ _ heq => by cases heq⟩
  | receive index reply ready now => exact h.receive ht hfits htimely

end AppBootstrap

variable {t : BootstrapTables} {types : List BlockType}
  {history : History AppBootstrap AppBootstrapAction} {s : AppBootstrap}

theorem pass_has_no_gaps (ht : t.Followed)
    (h : (appBootstrapMachine t types).Run
      (fun history _ => ∀ taken ∈ history, taken.1.Timely taken.2) history s) :
    ∀ taken ∈ history, taken.1.EndsComplete t types taken.2 ∧ taken.1.IgnoresStale taken.2 := by
  have hboth : s.Tracked t types ∧
      ∀ taken ∈ history, taken.1.EndsComplete t types taken.2 ∧ taken.1.IgnoresStale taken.2 := by
    refine h.invariant (P := fun history s => s.Tracked t types ∧
      ∀ taken ∈ history, taken.1.EndsComplete t types taken.2 ∧ taken.1.IgnoresStale taken.2) ?_ ?_
    · rintro _ rfl
      exact ⟨AppBootstrap.fresh_tracked, fun _ htaken => (by cases htaken)⟩
    · intro history s action _ hfits hallowed ⟨htracked, hbefore⟩
      obtain ⟨hnext, hcomplete, hstale⟩ :=
        htracked.take t types ht hfits (hallowed _ List.mem_cons_self)
      refine ⟨hnext, fun taken htaken => ?_⟩
      rcases List.mem_cons.mp htaken with rfl | htaken
      · exact ⟨hcomplete, hstale⟩
      · exact hbefore taken htaken
  exact hboth.2

-- A node with 1500 accounts, which are more than a page has.
def pagedAccount (n : Nat) : Account := BitVec.ofNat 256 (n + 1)

def pagedHead (n : Nat) : AccountHead := ⟨pagedAccount n, 7, 2⟩

def pagedInfo : AccountInfo := ⟨.txBlock, 0, 2, 0, 2, 7, 7⟩

def pagedTables (count : Nat) : BootstrapTables where
  accounts := .filled pagedAccount (fun _ => pagedInfo) count
  forks := .empty

section Paged

variable {count : Nat}

theorem pagedAccount_toNat {n : Nat} (h : n < 2 ^ 64) : (pagedAccount n).toNat = n + 1 :=
  BitVec.toNat_ofNat .. |>.trans (Nat.mod_eq_of_lt (by omega))

theorem pagedTables_get (h : count < 2 ^ 64) {account : Account} {info : AccountInfo} :
    (pagedTables count).accounts.get account = some info ↔
      ∃ n < count, account = pagedAccount n ∧ info = pagedInfo := by
  refine Table.get_filled fun m hm n hn heq => ?_
  have hnat := congrArg BitVec.toNat heq
  rw [pagedAccount_toNat (hm.trans h), pagedAccount_toNat (hn.trans h)] at hnat
  omega

theorem pagedTables_followed (h : count < 2 ^ 64) : (pagedTables count).Followed := by
  intro account info hget
  obtain ⟨n, hn, rfl, -⟩ := (pagedTables_get h).mp hget
  rw [pagedAccount_toNat (hn.trans h)]
  omega

-- The first account that is not before `next`.
theorem paged_next (h : count < 2 ^ 64) {next : Account} {n : Nat} (hn : n < count)
    (hnext : ∀ m, next.toNat ≤ m + 1 ↔ n ≤ m) :
    (pagedTables count).nextAccountInfo next = some (pagedAccount n, pagedInfo) := by
  have hget : (pagedTables count).accounts.get (pagedAccount n) = some pagedInfo :=
    (pagedTables_get h).mpr ⟨n, hn, rfl, rfl⟩
  have hfrom : next.toNat ≤ (pagedAccount n).toNat := by
    rw [pagedAccount_toNat (hn.trans h)]
    exact (hnext n).mpr (Nat.le_refl n)
  cases hfound : (pagedTables count).nextAccountInfo next with
  | none =>
      have hlt := nextAccountInfo_none hfound hget
      omega
  | some found =>
      obtain ⟨hstored, hle, hfirst⟩ := nextAccountInfo_some (t := pagedTables count) hfound
      obtain ⟨m, hm, haccount, hinfo⟩ := (pagedTables_get h).mp hstored
      have hbefore := hfirst _ _ hget hfrom
      rw [haccount, pagedAccount_toNat (hm.trans h)] at hle hbefore
      rw [pagedAccount_toNat (hn.trans h)] at hbefore
      have hsame : m = n := by
        have hnm := (hnext m).mp hle
        omega
      rw [← hsame, ← haccount, ← hinfo]

theorem paged_end (h : count < 2 ^ 64) :
    (pagedTables count).nextAccountInfo (pagedAccount count) = none := by
  cases hfound : (pagedTables count).nextAccountInfo (pagedAccount count) with
  | none => rfl
  | some found =>
      obtain ⟨hstored, hle, -⟩ := nextAccountInfo_some (t := pagedTables count) hfound
      obtain ⟨m, hm, haccount, -⟩ := (pagedTables_get h).mp hstored
      rw [haccount, pagedAccount_toNat (hm.trans h), pagedAccount_toNat h] at hle
      omega

theorem paged_from (n : Nat) (h : n < 2 ^ 64) (m : Nat) :
    (pagedAccount n).toNat ≤ m + 1 ↔ n ≤ m := by
  rw [pagedAccount_toNat h]
  omega

-- A page from the account with a number on: full, or the last one.
theorem paged_page (h : count < 2 ^ 64) (size n : Nat) (hn : n ≤ count) :
    accountHeadsPage (pagedTables count) [.txBlock] size (pagedAccount n) =
      if n + size ≤ count then
        ⟨true, pagedAccount (n + size), (List.range' n size).map pagedHead⟩
      else ⟨false, 0, (List.range' n (count - n)).map pagedHead⟩ := by
  induction size generalizing n with
  | zero =>
      exact (if_pos hn).symm
  | succ size ih =>
      unfold accountHeadsPage
      rcases Nat.lt_or_eq_of_le hn with hlt | rfl
      · rw [paged_next h hlt (paged_from n (hlt.trans h))]
        have hadd : pagedAccount n + 1 = pagedAccount (n + 1) := (BitVec.ofNat_add (n + 1) 1).symm
        have hvalid : pagedInfo.valid = true ∧ pagedInfo.type ∈ [BlockType.txBlock] := by decide
        dsimp only
        rw [if_pos hvalid, hadd, ih (n + 1) hlt]
        have hsize : n + 1 + size = n + (size + 1) := by omega
        have hrest : count - n = count - (n + 1) + 1 := by omega
        rw [hsize, hrest, List.range'_succ, List.range'_succ]
        split
        · rfl
        · rfl
      · rw [paged_end h, if_neg (by omega), Nat.sub_self]
        rfl

-- The first page begins with the first account.
theorem paged_start (h : count < 2 ^ 64) (hsome : 0 < count) (size : Nat) :
    accountHeadsPage (pagedTables count) [.txBlock] (size + 1) 0 =
      accountHeadsPage (pagedTables count) [.txBlock] (size + 1) (pagedAccount 0) := by
  unfold accountHeadsPage
  rw [paged_next h hsome (paged_from 0 (by omega)), paged_next (n := 0) h hsome fun m => by simp]

end Paged

-- A page that is waited for.
theorem receive_page {t : BootstrapTables} {types : List BlockType} {s : AppBootstrap}
    {call : HeadsCall} {page : HeadsPage}
    (hpage : accountHeadsPage t types (headsCount HEADS_COUNT).toNat call.next = page)
    (hid : call.requestId = s.requestId) (hgoes : s.stopped = false) (index now : Nat) :
    s.take (.receive index (accountHeads t types call.requestId call.next HEADS_COUNT) true now) =
      (s.advance page.more page.next true now).processAccountHeads page.heads := by
  have hreply : accountHeads t types call.requestId call.next HEADS_COUNT =
      ⟨some s.requestId, true, some page.more, some page.next, page.heads.map some⟩ := by
    rw [accountHeads, hpage, hid]
  rw [hreply, AppBootstrap.take, AppBootstrap.receiveAccountHeadMessage]
  dsimp only
  rw [if_neg (by simp [hgoes]), mapM_id_map_some]

-- Two pages. The first request is made twice, and the reply to the second one is late.
def pagedMachine : Machine AppBootstrap AppBootstrapAction :=
  appBootstrapMachine (pagedTables 1500) [.txBlock]

def pageReply (call : HeadsCall) : HeadsReply :=
  accountHeads (pagedTables 1500) [.txBlock] call.requestId call.next HEADS_COUNT

def firstCall : HeadsCall := ⟨1, 0, 1, 1⟩

def secondCall : HeadsCall := ⟨2, pagedAccount 1000, 1, 2⟩

def firstHeads : List AccountHead := (List.range' 0 1000).map pagedHead

def secondHeads : List AccountHead := (List.range' 1000 500).map pagedHead

theorem page_first : accountHeadsPage (pagedTables 1500) [.txBlock] (headsCount HEADS_COUNT).toNat
    firstCall.next = ⟨true, pagedAccount 1000, firstHeads⟩ := by
  have hcount : (headsCount HEADS_COUNT).toNat = 999 + 1 := by decide
  rw [hcount, firstCall, paged_start (by omega) (by omega), paged_page (by omega) _ _ (by omega),
    if_pos (by omega), firstHeads]

theorem page_second : accountHeadsPage (pagedTables 1500) [.txBlock] (headsCount HEADS_COUNT).toNat
    secondCall.next = ⟨false, 0, secondHeads⟩ := by
  have hcount : (headsCount HEADS_COUNT).toNat = 1000 := by decide
  rw [hcount, secondCall, paged_page (by omega) _ _ (by omega), if_neg (by omega), secondHeads]

def pagedActions : List AppBootstrapAction :=
  [.run true (10 * 10 ^ 9), .send 0, .run true (16 * 10 ^ 9), .send 0,
    .receive 0 (pageReply firstCall) true (17 * 10 ^ 9), .send 0,
    .receive 2 (pageReply secondCall) true (18 * 10 ^ 9), .run true (30 * 10 ^ 9)]

-- In the first pass.
def inPass (lastRequest : Nat) (last : HeadsCall) (calls : List HeadsCall)
    (requests : List HeadsRequest) (given : List AccountHead) : AppBootstrap where
  stopped := false
  running := true
  count := 1
  requestId := last.requestId
  lastRun := 10 * 10 ^ 9
  lastRequest := lastRequest
  next := last.next
  passes := 1
  numbers := last.number
  calls := calls
  requests := requests
  given := given

def firstAsked : AppBootstrap :=
  inPass (16 * 10 ^ 9) firstCall [] [⟨firstCall, false⟩, ⟨firstCall, false⟩] []

def secondAsked : AppBootstrap :=
  inPass (17 * 10 ^ 9) secondCall [] [⟨firstCall, false⟩, ⟨firstCall, false⟩, ⟨secondCall, false⟩]
    firstHeads

def pagesCome : AppBootstrap :=
  { secondAsked with
    running := false
    next := 0
    given := firstHeads ++ secondHeads }

def nextPass : AppBootstrap :=
  { pagesCome with
    running := true
    count := 2
    requestId := 3
    lastRun := 30 * 10 ^ 9
    lastRequest := 30 * 10 ^ 9
    passes := 2
    numbers := 3
    calls := [⟨3, 0, 2, 3⟩]
    given := [] }

theorem secondAsked_receive :
    secondAsked.take (.receive 2 (pageReply secondCall) true (18 * 10 ^ 9)) = pagesCome := by
  rw [pageReply, receive_page page_second rfl rfl]
  unfold pagesCome secondAsked
  generalize firstHeads = heads, secondHeads = others
  rfl

-- A pass that begins with its first request.
theorem run_starts {s : AppBootstrap} {now : Nat} (hgoes : s.stopped = false)
    (hidle : s.running = false) (hfew : ¬s.count ≥ INITIAL_FULL_BOOTSTRAPS)
    (hdue : ¬s.lastRequest + BOOTSTRAP_RETRY > now) :
    s.take (.run true now) = (s.startPass now).sendRequest_ now false := by
  have hkept : (s.startPass now).lastRequest = s.lastRequest := rfl
  simp [AppBootstrap.take, AppBootstrap.run, hgoes, hidle, hfew, hkept, hdue]

theorem pagesCome_run : pagesCome.take (.run true (30 * 10 ^ 9)) = nextPass := by
  rw [run_starts rfl rfl (show ¬(1 : UInt64) ≥ INITIAL_FULL_BOOTSTRAPS by decide)
    (show ¬17 * 10 ^ 9 + BOOTSTRAP_RETRY > 30 * 10 ^ 9 by decide)]
  rfl

theorem pagedActions_exec : pagedMachine.exec .fresh pagedActions =
    ([(pagesCome, .run true (30 * 10 ^ 9)),
      (secondAsked, .receive 2 (pageReply secondCall) true (18 * 10 ^ 9)),
      (inPass (17 * 10 ^ 9) secondCall [secondCall] [⟨firstCall, false⟩, ⟨firstCall, false⟩]
        firstHeads, .send 0),
      (firstAsked, .receive 0 (pageReply firstCall) true (17 * 10 ^ 9)),
      (inPass (16 * 10 ^ 9) firstCall [firstCall] [⟨firstCall, false⟩] [], .send 0),
      (inPass (10 * 10 ^ 9) firstCall [] [⟨firstCall, false⟩] [], .run true (16 * 10 ^ 9)),
      (inPass (10 * 10 ^ 9) firstCall [firstCall] [] [], .send 0),
      (.fresh, .run true (10 * 10 ^ 9))], nextPass) := by
  have hstart : AppBootstrap.fresh.take (.run true (10 * 10 ^ 9)) =
        inPass (10 * 10 ^ 9) firstCall [firstCall] [] [] ∧
      (inPass (10 * 10 ^ 9) firstCall [firstCall] [] []).take (.send 0) =
        inPass (10 * 10 ^ 9) firstCall [] [⟨firstCall, false⟩] [] ∧
      (inPass (10 * 10 ^ 9) firstCall [] [⟨firstCall, false⟩] []).take (.run true (16 * 10 ^ 9)) =
        inPass (16 * 10 ^ 9) firstCall [firstCall] [⟨firstCall, false⟩] [] ∧
      (inPass (16 * 10 ^ 9) firstCall [firstCall] [⟨firstCall, false⟩] []).take (.send 0) =
        firstAsked := by
    decide
  have hfirst : firstAsked.take (.receive 0 (pageReply firstCall) true (17 * 10 ^ 9)) =
      inPass (17 * 10 ^ 9) secondCall [secondCall] [⟨firstCall, false⟩, ⟨firstCall, false⟩]
        firstHeads := by
    rw [pageReply, receive_page page_first rfl rfl]
    generalize firstHeads = heads
    rfl
  have hsent : (inPass (17 * 10 ^ 9) secondCall [secondCall]
      [⟨firstCall, false⟩, ⟨firstCall, false⟩] firstHeads).take (.send 0) = secondAsked := by
    unfold secondAsked
    generalize firstHeads = heads
    rfl
  have hstep (s : AppBootstrap) (action : AppBootstrapAction) :
      pagedMachine.step s action = s.take action := rfl
  simp only [Machine.exec, pagedActions, List.foldl_cons, List.foldl_nil, hstep, hstart, hfirst,
    secondAsked_receive, hsent, pagesCome_run]

-- All accounts have come, and the late reply does nothing to the next pass.
theorem two_page_pass :
    pagesCome.running = false ∧ (∀ n < 1500, pagedHead n ∈ pagesCome.given) ∧
      nextPass.take (.receive 1 (pageReply firstCall) true (31 * 10 ^ 9)) = nextPass := by
  have hfits : ∀ taken ∈ (pagedMachine.exec .fresh pagedActions).1,
      pagedMachine.fits taken.1 taken.2 := by
    rw [pagedActions_exec]
    simp only [List.forall_mem_cons]
    refine ⟨trivial, ⟨_, rfl, rfl, fun _ => rfl⟩, Nat.zero_lt_one, ⟨_, rfl, rfl, fun _ => rfl⟩,
      Nat.zero_lt_one, trivial, Nat.zero_lt_one, trivial, fun _ h => (by cases h)⟩
  have htimely : ∀ taken ∈ (pagedMachine.exec .fresh pagedActions).1, taken.1.Timely taken.2 := by
    rw [pagedActions_exec]
    simp only [List.forall_mem_cons]
    refine ⟨trivial, ?_, trivial, ?_, trivial, trivial, trivial, trivial, fun _ h => (by cases h)⟩
    · intro r hr
      cases hr
      decide
    · intro r hr
      cases hr
      decide
  have hrun : pagedMachine.Run (fun history _ => ∀ taken ∈ history, taken.1.Timely taken.2)
      (pagedMachine.exec .fresh pagedActions).1 (pagedMachine.exec .fresh pagedActions).2 :=
    Machine.exec_run_of_fits rfl (fun _ hn => hfits _ (Machine.taken_mem_exec hn))
      fun _ _ taken htaken => htimely taken (Machine.mem_exec_of_take htaken)
  have hlate : nextPass.Timely (.receive 1 (pageReply firstCall) true (31 * 10 ^ 9)) := by
    intro r hr
    cases hr
    decide
  have hlateFits : pagedMachine.fits nextPass
      (.receive 1 (pageReply firstCall) true (31 * 10 ^ 9)) := ⟨_, rfl, rfl, fun _ => rfl⟩
  rw [pagedActions_exec] at hrun htimely
  have hall := pass_has_no_gaps (pagedTables_followed (by omega))
    (.step hrun hlateFits (List.forall_mem_cons.mpr ⟨hlate, htimely⟩))
  simp only [List.forall_mem_cons] at hall
  obtain ⟨⟨-, hstale⟩, -, ⟨hcomplete, -⟩, -⟩ := hall
  refine ⟨rfl, fun n hn => ?_, hstale 1 _ true _ ⟨firstCall, false⟩ rfl rfl (by decide)⟩
  have hcome := hcomplete 2 _ true _ rfl rfl
  rw [secondAsked_receive] at hcome
  exact hcome rfl (by decide) (pagedAccount n) pagedInfo
    ⟨(pagedTables_get (by omega)).mpr ⟨n, hn, rfl, rfl⟩, by decide, by decide⟩

-- A node with one account.
def passTables : BootstrapTables where
  accounts := Table.empty.put 5 ⟨.txBlock, 0, 2, 0, 2, 7, 7⟩
  forks := .empty

-- The first request of a first pass, and the state after `Run` has made its call.
def passStarted : AppBootstrap :=
  (appBootstrapMachine passTables [.txBlock]).step .fresh (.run true (10 * 10 ^ 9))

def passRequest : HeadsRequest := ⟨⟨1, 0, 1, 1⟩, false⟩

def passAsked : AppBootstrap := (appBootstrapMachine passTables [.txBlock]).step passStarted (.send 0)

def passReply : HeadsReply := accountHeads passTables [.txBlock] 1 0 HEADS_COUNT

theorem passReply_fits (s : AppBootstrap) (h : s.requests[0]? = some passRequest) (ready : Bool)
    (now : Nat) : s.Fits passTables [.txBlock] (.receive 0 passReply ready now) :=
  ⟨passRequest, h, rfl, fun _ => rfl⟩

theorem passAsked_run : (appBootstrapMachine passTables [.txBlock]).Run (fun _ _ => True)
    [(passStarted, .send 0), (.fresh, .run true (10 * 10 ^ 9))] passAsked := by
  have hfits : (appBootstrapMachine passTables [.txBlock]).fits passStarted (.send 0) := by
    change 0 < passStarted.calls.length
    decide
  exact .step (.step (.start rfl trivial) trivial trivial) hfits trivial

-- What a state is after a number of resets.
def AppBootstrap.cleared (s : AppBootstrap) (n : Nat) : AppBootstrap where
  stopped := s.stopped
  running := false
  count := 0
  requestId := s.requestId + UInt64.ofNat n
  lastRun := 0
  lastRequest := 0
  next := 0
  passes := s.passes
  numbers := s.numbers + n
  calls := s.calls
  requests := s.requests
  given := s.given

theorem AppBootstrap.cleared_reset (s : AppBootstrap) (hgoes : s.stopped = false) (n : Nat) :
    (s.cleared n).reset = s.cleared (n + 1) := by
  have hid : s.requestId + UInt64.ofNat n + 1 = s.requestId + UInt64.ofNat (n + 1) := by
    rw [UInt64.add_assoc, UInt64.ofNat_add]
    rfl
  simp only [reset, cleared, increaseId, hgoes, Bool.false_eq_true, if_false, hid, Nat.add_assoc]

theorem resets_run {history : History AppBootstrap AppBootstrapAction} {s : AppBootstrap}
    (h : (appBootstrapMachine t types).Run (fun _ _ => True) history s)
    (hgoes : s.stopped = false) (n : Nat) :
    ∃ history', (appBootstrapMachine t types).Run (fun _ _ => True) history' (s.cleared (n + 1)) := by
  induction n with
  | zero =>
      have hreset : s.reset = s.cleared 1 := by
        simp only [AppBootstrap.reset, AppBootstrap.cleared, AppBootstrap.increaseId, hgoes,
          Bool.false_eq_true, if_false]
        rfl
      rw [← hreset]
      exact ⟨_, @Machine.Run.step _ _ (appBootstrapMachine t types) _ _ s .reset h trivial trivial⟩
  | succ n ih =>
      obtain ⟨history', hrun⟩ := ih
      rw [← s.cleared_reset hgoes (n + 1)]
      exact ⟨_, @Machine.Run.step _ _ (appBootstrapMachine t types) _ _ (s.cleared (n + 1)) .reset hrun
        trivial trivial⟩

-- The id comes round after 2 ^ 64 resets, and a reply to the first pass ends the next one.
theorem late_reply_ends_pass :
    ∃ history s, (appBootstrapMachine passTables [.txBlock]).Run (fun _ _ => True) history s ∧
      s.Fits passTables [.txBlock] (.receive 0 passReply true 0) ∧
      s.requests[0]? = some passRequest ∧ passRequest.call.pass < s.passes ∧ s.running = true ∧
      (s.take (.receive 0 passReply true 0)).running = false := by
  obtain ⟨history, hrun⟩ := resets_run passAsked_run (by decide)
    (2 ^ 64 - 2)
  have hagain := @Machine.Run.step _ _ (appBootstrapMachine passTables [.txBlock]) _ _
    (passAsked.cleared (2 ^ 64 - 2 + 1)) (.run true (10 * 10 ^ 9)) hrun trivial trivial
  have hrequest : ((appBootstrapMachine passTables [.txBlock]).step
      (passAsked.cleared (2 ^ 64 - 2 + 1)) (.run true (10 * 10 ^ 9))).requests[0]? =
      some passRequest := by decide
  refine ⟨_, _, hagain, passReply_fits _ hrequest true 0, hrequest, ?_, ?_, ?_⟩
  · decide
  · decide
  · decide

end Raicoin
