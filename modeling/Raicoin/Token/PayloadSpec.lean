import Raicoin.Token.Payload

-- The readers of the TOKEN extension invert its writers.
namespace Raicoin.Payload

open Lib

section Ends

variable {α : Type}

-- The end of a record that is checked as a whole.
theorem checked_inverts {a : α} {tests : Except ErrorCode Unit} {known : α → Prop}
    (hpass : ∀ b, known b → tests = .ok ()) (hknown : tests = .ok () → known a)
    (hall : ∀ b, known b → b = a) : Inverts (checked a tests) (fun _ => []) known :=
  .verify hpass fun htests => .done (hknown htests) hall

-- A record of one field.
theorem field_inverts {β : Type} [Wire β] {f : β → α} {get : α → β}
    {tests : α → Except ErrorCode Unit} (hget : ∀ b, get (f b) = b) (hf : ∀ a, f (get a) = a) :
    Inverts (do let b ← streamRead; checked (f b) (tests (f b))) (fun a => streamWrite (get a))
      fun a => tests a = .ok () := by
  refine .congr ?_ (fun a _ => (List.append_nil _).symm) fun a => Iff.rfl
  refine .bind get streamRead_inverts (fun _ _ => trivial) fun b _ => ?_
  refine checked_inverts (fun a ha => ?_) (fun h => ⟨h, hget b⟩) fun a ha => ?_
  · rw [← ha.2, hf]
    exact ha.1
  · rw [← ha.2, hf]

end Ends

namespace ExtensionTokenInfo

theorem deserialize_inverts : Inverts deserialize serialize fun info => info.checkData = .ok () := by
  unfold deserialize
  refine .bind chain streamRead_inverts (fun _ _ => trivial) fun chain _ => ?_
  refine .bind type streamRead_inverts (fun _ _ => trivial) fun type _ => ?_
  refine .bind address streamRead_inverts (fun _ _ => trivial) fun address _ => ?_
  refine checked_inverts (fun info h => ?_) (fun h => ?_) fun info h => ?_
  · obtain ⟨⟨⟨h, rfl⟩, rfl⟩, rfl⟩ := h
    exact h
  · exact ⟨⟨⟨h, rfl⟩, rfl⟩, rfl⟩
  · obtain ⟨⟨⟨-, rfl⟩, rfl⟩, rfl⟩ := h
    rfl

end ExtensionTokenInfo

namespace ExtensionToken20Create

def Short (create : ExtensionToken20Create) : Prop :=
  create.name.length ≤ MAX_STRING_SIZE ∧ create.symbol.length ≤ MAX_STRING_SIZE

theorem deserialize_inverts :
    Inverts deserialize serialize fun create => create.checkData = .ok () ∧ create.Short := by
  unfold deserialize
  refine .bind name readString_inverts (fun c h => h.2.1) fun name hname => ?_
  refine .bind symbol readString_inverts (fun c h => h.1.2.2) fun symbol hsymbol => ?_
  refine .bind initSupply streamRead_inverts (fun _ _ => trivial) fun initSupply _ => ?_
  refine .bind capSupply streamRead_inverts (fun _ _ => trivial) fun capSupply _ => ?_
  refine .bind decimals streamRead_inverts (fun _ _ => trivial) fun decimals _ => ?_
  refine .bind burnable readBool_inverts (fun _ _ => trivial) fun burnable _ => ?_
  refine .bind mintable readBool_inverts (fun _ _ => trivial) fun mintable _ => ?_
  refine .bind circulable readBool_inverts (fun _ _ => trivial) fun circulable _ => ?_
  refine checked_inverts (fun c h => ?_) (fun h => ?_) fun c h => ?_
  · obtain ⟨⟨⟨⟨⟨⟨⟨⟨⟨h, -⟩, rfl⟩, rfl⟩, rfl⟩, rfl⟩, rfl⟩, rfl⟩, rfl⟩, rfl⟩ := h
    exact h
  · exact ⟨⟨⟨⟨⟨⟨⟨⟨⟨h, hname, hsymbol⟩, rfl⟩, rfl⟩, rfl⟩, rfl⟩, rfl⟩, rfl⟩, rfl⟩, rfl⟩
  · obtain ⟨⟨⟨⟨⟨⟨⟨⟨-, rfl⟩, rfl⟩, rfl⟩, rfl⟩, rfl⟩, rfl⟩, rfl⟩, rfl⟩ := h
    rfl

end ExtensionToken20Create

namespace ExtensionToken721Create

def Short (create : ExtensionToken721Create) : Prop :=
  create.name.length ≤ MAX_STRING_SIZE ∧ create.symbol.length ≤ MAX_STRING_SIZE ∧
    create.baseUri.length ≤ MAX_STRING_SIZE

theorem deserialize_inverts :
    Inverts deserialize serialize fun create => create.checkData = .ok () ∧ create.Short := by
  unfold deserialize
  refine .bind name readString_inverts (fun c h => h.2.1) fun name hname => ?_
  refine .bind symbol readString_inverts (fun c h => h.1.2.2.1) fun symbol hsymbol => ?_
  refine .bind baseUri readString_inverts (fun c h => h.1.1.2.2.2) fun baseUri hbaseUri => ?_
  refine .bind capSupply streamRead_inverts (fun _ _ => trivial) fun capSupply _ => ?_
  refine .bind burnable readBool_inverts (fun _ _ => trivial) fun burnable _ => ?_
  refine .bind circulable readBool_inverts (fun _ _ => trivial) fun circulable _ => ?_
  refine checked_inverts (fun c h => ?_) (fun h => ?_) fun c h => ?_
  · obtain ⟨⟨⟨⟨⟨⟨⟨h, -⟩, rfl⟩, rfl⟩, rfl⟩, rfl⟩, rfl⟩, rfl⟩ := h
    exact h
  · exact ⟨⟨⟨⟨⟨⟨⟨h, hname, hsymbol, hbaseUri⟩, rfl⟩, rfl⟩, rfl⟩, rfl⟩, rfl⟩, rfl⟩
  · obtain ⟨⟨⟨⟨⟨⟨-, rfl⟩, rfl⟩, rfl⟩, rfl⟩, rfl⟩, rfl⟩ := h
    rfl

end ExtensionToken721Create

namespace ExtensionTokenCreate

def Short : ExtensionTokenCreate → Prop
  | .token20 data => data.Short
  | .token721 data => data.Short

theorem readData_inverts (type : TokenType) : Inverts (readData type) data fun create =>
    (create.checkData = .ok () ∧ create.Short) ∧ create.type = type := by
  unfold readData
  split_ifs with h20 h721
  · subst h20
    refine ExtensionToken20Create.deserialize_inverts.branch (fun _ => Iff.rfl) (fun _ => rfl)
      (fun _ => rfl) fun create h => ?_
    cases create with
    | token20 data => exact ⟨data, rfl⟩
    | token721 data => cases h
  · subst h721
    refine ExtensionToken721Create.deserialize_inverts.branch (fun _ => Iff.rfl) (fun _ => rfl)
      (fun _ => rfl) fun create h => ?_
    cases create with
    | token20 data => cases h
    | token721 data => exact ⟨data, rfl⟩
  · refine .fail fun create h => ?_
    cases create with
    | token20 data => exact h20 h.2.symm
    | token721 data => exact h721 h.2.symm

theorem deserialize_inverts :
    Inverts deserialize serialize fun create => create.checkData = .ok () ∧ create.Short := by
  refine .bind type streamRead_inverts (fun _ _ => trivial) fun type _ => ?_
  refine .verify (fun create h => ?_) fun _ => readData_inverts type
  rw [← h.2]
  cases create <;> rfl

end ExtensionTokenCreate

namespace ExtensionTokenMint

def Short (mint : ExtensionTokenMint) : Prop := mint.uri.length ≤ MAX_STRING_SIZE

theorem deserialize_inverts :
    Inverts deserialize serialize fun mint => mint.checkData = .ok () ∧ mint.Short := by
  unfold deserialize
  refine .bind type streamRead_inverts (fun _ _ => trivial) fun type _ => ?_
  refine .bind to_ streamRead_inverts (fun _ _ => trivial) fun to_ _ => ?_
  refine .bind value streamRead_inverts (fun _ _ => trivial) fun value _ => ?_
  refine .congr (?_ : Inverts _ (fun m : ExtensionTokenMint =>
    (if type = .T721 then writeString m.uri else []) ++ []) _) (fun m h => ?_) fun m => Iff.rfl
  · refine .bind uri (readString_inverts.when (type = .T721) []) (fun m h => ?_) fun uri huri => ?_
    · obtain ⟨⟨⟨⟨-, hshort⟩, rfl⟩, -⟩, -⟩ := h
      split
      · exact hshort
      · exact m.uri_eq ‹_›
    have heq : type ≠ .T721 → uri = [] := by
      intro hne
      rwa [if_neg hne] at huri
    have hshort : uri.length ≤ MAX_STRING_SIZE := by
      split at huri
      · exact huri
      · rw [huri]
        exact Nat.zero_le _
    rw [dif_pos heq]
    refine checked_inverts (fun m h => ?_) (fun h => ?_) fun m h => ?_
    · obtain ⟨⟨⟨⟨⟨h, -⟩, rfl⟩, rfl⟩, rfl⟩, rfl⟩ := h
      exact h
    · exact ⟨⟨⟨⟨⟨h, hshort⟩, rfl⟩, rfl⟩, rfl⟩, rfl⟩
    · obtain ⟨⟨⟨⟨-, rfl⟩, rfl⟩, rfl⟩, rfl⟩ := h
      rfl
  · obtain ⟨⟨⟨-, rfl⟩, -⟩, -⟩ := h
    rfl

end ExtensionTokenMint

namespace ExtensionTokenBurn

theorem deserialize_inverts : Inverts deserialize serialize fun burn => burn.checkData = .ok () := by
  unfold deserialize
  refine .bind type streamRead_inverts (fun _ _ => trivial) fun type _ => ?_
  refine .bind value streamRead_inverts (fun _ _ => trivial) fun value _ => ?_
  refine checked_inverts (fun b h => ?_) (fun h => ⟨⟨h, rfl⟩, rfl⟩) fun b h => ?_
  · obtain ⟨⟨h, rfl⟩, rfl⟩ := h
    exact h
  · obtain ⟨⟨-, rfl⟩, rfl⟩ := h
    rfl

end ExtensionTokenBurn

namespace ExtensionTokenSend

theorem token_checked {send : ExtensionTokenSend} (h : send.checkData = .ok ()) :
    send.token.checkData = .ok () := by
  obtain ⟨_, htoken, -⟩ := (Except.bind_eq_ok _ _ _).mp h
  exact htoken

theorem deserialize_inverts : Inverts deserialize serialize fun send => send.checkData = .ok () := by
  unfold deserialize
  refine .bind token ExtensionTokenInfo.deserialize_inverts (fun _ => token_checked)
    fun token _ => ?_
  refine .bind to_ streamRead_inverts (fun _ _ => trivial) fun to_ _ => ?_
  refine .bind value streamRead_inverts (fun _ _ => trivial) fun value _ => ?_
  refine checked_inverts (fun s h => ?_) (fun h => ⟨⟨⟨h, rfl⟩, rfl⟩, rfl⟩) fun s h => ?_
  · obtain ⟨⟨⟨h, rfl⟩, rfl⟩, rfl⟩ := h
    exact h
  · obtain ⟨⟨⟨-, rfl⟩, rfl⟩, rfl⟩ := h
    rfl

end ExtensionTokenSend

namespace ExtensionTokenReceive

theorem token_checked {receive : ExtensionTokenReceive} (h : receive.checkData = .ok ()) :
    receive.token.checkData = .ok () := by
  obtain ⟨_, htoken, -⟩ := (Except.bind_eq_ok _ _ _).mp h
  exact htoken

-- With an index that must be there.
theorem deserialize_inverts :
    Inverts (deserialize streamRead) serialize fun receive => receive.checkData = .ok () := by
  unfold deserialize
  refine .bind token ExtensionTokenInfo.deserialize_inverts (fun _ => token_checked)
    fun token _ => ?_
  refine .bind source streamRead_inverts (fun _ _ => trivial) fun source _ => ?_
  refine .bind from_ streamRead_inverts (fun _ _ => trivial) fun from_ _ => ?_
  refine .bind blockHeight streamRead_inverts (fun _ _ => trivial) fun blockHeight _ => ?_
  refine .bind txHash streamRead_inverts (fun _ _ => trivial) fun txHash _ => ?_
  refine .bind value streamRead_inverts (fun _ _ => trivial) fun value _ => ?_
  refine .congr (?_ : Inverts _ (fun r : ExtensionTokenReceive =>
    (if source = .UNWRAP then streamWrite r.unwrapChain else []) ++
      ((if indexed source = true then streamWrite r.index else []) ++ [])) _) (fun r h => ?_)
    fun r => Iff.rfl
  · refine .bind unwrapChain (streamRead_inverts.when (source = .UNWRAP) Chain.INVALID)
      (fun r h => ?_) fun unwrapChain hunwrap => ?_
    · obtain ⟨⟨⟨⟨⟨⟨-, -⟩, rfl⟩, -⟩, -⟩, -⟩, -⟩ := h
      split
      · trivial
      · exact r.unwrapChain_eq ‹_›
    refine .bind index (streamRead_inverts.when (indexed source = true) 0) (fun r h => ?_)
      fun index hindex => ?_
    · obtain ⟨⟨⟨⟨⟨⟨⟨-, -⟩, rfl⟩, -⟩, -⟩, -⟩, -⟩, -⟩ := h
      split
      · trivial
      · rename_i hne
        exact r.index_eq (Bool.eq_false_iff.mpr hne)
    have heq : (source ≠ .UNWRAP → unwrapChain = .INVALID) ∧ (indexed source = false → index = 0) := by
      refine ⟨fun hne => ?_, fun hne => ?_⟩
      · rwa [if_neg hne] at hunwrap
      · rwa [if_neg (by simp [hne])] at hindex
    rw [dif_pos heq]
    refine checked_inverts (fun r h => ?_) (fun h => ?_) fun r h => ?_
    · obtain ⟨⟨⟨⟨⟨⟨⟨⟨h, rfl⟩, rfl⟩, rfl⟩, rfl⟩, rfl⟩, rfl⟩, rfl⟩, rfl⟩ := h
      exact h
    · exact ⟨⟨⟨⟨⟨⟨⟨⟨h, rfl⟩, rfl⟩, rfl⟩, rfl⟩, rfl⟩, rfl⟩, rfl⟩, rfl⟩
    · obtain ⟨⟨⟨⟨⟨⟨⟨⟨-, rfl⟩, rfl⟩, rfl⟩, rfl⟩, rfl⟩, rfl⟩, rfl⟩, rfl⟩ := h
      rfl
  · obtain ⟨⟨⟨⟨⟨⟨-, -⟩, rfl⟩, -⟩, -⟩, -⟩, -⟩ := h
    rfl

end ExtensionTokenReceive

namespace ExtensionTokenSwapMake

theorem offer_checked {make : ExtensionTokenSwapMake} (h : make.checkData = .ok ()) :
    make.tokenOffer.checkData = .ok () := by
  obtain ⟨_, hoffer, -⟩ := (Except.bind_eq_ok _ _ _).mp h
  exact hoffer

theorem want_checked {make : ExtensionTokenSwapMake} (h : make.checkData = .ok ()) :
    make.tokenWant.checkData = .ok () := by
  obtain ⟨_, -, h⟩ := (Except.bind_eq_ok _ _ _).mp h
  obtain ⟨_, hwant, -⟩ := (Except.bind_eq_ok _ _ _).mp h
  exact hwant

theorem readOffers_inverts : Inverts readOffers
    (fun offers => streamWrite offers.1 ++ (streamWrite offers.2 ++ [])) fun _ => True := by
  unfold readOffers
  refine .bind Prod.fst streamRead_inverts (fun _ _ => trivial) fun minOffer _ => ?_
  refine .bind Prod.snd streamRead_inverts (fun _ _ => trivial) fun maxOffer _ => ?_
  exact .done ⟨⟨trivial, rfl⟩, rfl⟩ fun offers h => Prod.ext h.1.2 h.2

theorem deserialize_inverts : Inverts deserialize serialize fun make => make.checkData = .ok () := by
  unfold deserialize
  refine .bind tokenOffer ExtensionTokenInfo.deserialize_inverts (fun _ => offer_checked)
    fun offer _ => ?_
  refine .bind tokenWant ExtensionTokenInfo.deserialize_inverts (fun _ h => want_checked h.1)
    fun want _ => ?_
  refine .bind valueOffer streamRead_inverts (fun _ _ => trivial) fun valueOffer _ => ?_
  refine .bind valueWant streamRead_inverts (fun _ _ => trivial) fun valueWant _ => ?_
  refine .congr (?_ : Inverts _ (fun m : ExtensionTokenSwapMake =>
    (if fungiblePair offer want = true then
      streamWrite m.minOffer ++ (streamWrite m.maxOffer ++ []) else []) ++
        (streamWrite m.timeout ++ [])) _) (fun m h => ?_) fun m => Iff.rfl
  · refine .bind (fun m : ExtensionTokenSwapMake => (m.minOffer, m.maxOffer))
      (readOffers_inverts.when (fungiblePair offer want = true) (0, 0)) (fun m h => ?_)
      fun offers hoffers => ?_
    · obtain ⟨⟨⟨⟨-, rfl⟩, rfl⟩, -⟩, -⟩ := h
      split
      · trivial
      · rename_i hne
        obtain ⟨hmin, hmax⟩ := m.offers_eq (Bool.eq_false_iff.mpr hne)
        exact Prod.ext hmin hmax
    refine .bind timeout streamRead_inverts (fun _ _ => trivial) fun timeout _ => ?_
    have heq : fungiblePair offer want = false → offers.1 = 0 ∧ offers.2 = 0 := by
      intro hne
      rw [if_neg (by simp [hne])] at hoffers
      rw [hoffers]
      exact ⟨rfl, rfl⟩
    rw [dif_pos heq]
    refine checked_inverts (fun m h => ?_) (fun h => ?_) fun m h => ?_
    · obtain ⟨⟨⟨⟨⟨⟨h, rfl⟩, rfl⟩, rfl⟩, rfl⟩, rfl⟩, rfl⟩ := h
      exact h
    · exact ⟨⟨⟨⟨⟨⟨h, rfl⟩, rfl⟩, rfl⟩, rfl⟩, rfl⟩, rfl⟩
    · obtain ⟨⟨⟨⟨⟨⟨-, rfl⟩, rfl⟩, rfl⟩, rfl⟩, rfl⟩, rfl⟩ := h
      rfl
  · obtain ⟨⟨⟨⟨-, rfl⟩, rfl⟩, -⟩, -⟩ := h
    rfl

end ExtensionTokenSwapMake

variable {validPublicKey : PublicKey → Bool}

namespace ExtensionTokenSwapInquiry

theorem deserialize_inverts : Inverts (deserialize validPublicKey) serialize
    fun inquiry => inquiry.checkData validPublicKey = .ok () := by
  unfold deserialize
  refine .bind maker streamRead_inverts (fun _ _ => trivial) fun maker _ => ?_
  refine .bind orderHeight streamRead_inverts (fun _ _ => trivial) fun orderHeight _ => ?_
  refine .bind ackHeight streamRead_inverts (fun _ _ => trivial) fun ackHeight _ => ?_
  refine .bind timeout streamRead_inverts (fun _ _ => trivial) fun timeout _ => ?_
  refine .bind value streamRead_inverts (fun _ _ => trivial) fun value _ => ?_
  refine .bind share streamRead_inverts (fun _ _ => trivial) fun share _ => ?_
  refine checked_inverts (fun i h => ?_) (fun h => ?_) fun i h => ?_
  · obtain ⟨⟨⟨⟨⟨⟨h, rfl⟩, rfl⟩, rfl⟩, rfl⟩, rfl⟩, rfl⟩ := h
    exact h
  · exact ⟨⟨⟨⟨⟨⟨h, rfl⟩, rfl⟩, rfl⟩, rfl⟩, rfl⟩, rfl⟩
  · obtain ⟨⟨⟨⟨⟨⟨-, rfl⟩, rfl⟩, rfl⟩, rfl⟩, rfl⟩, rfl⟩ := h
    rfl

end ExtensionTokenSwapInquiry

namespace ExtensionTokenSwapInquiryAck

theorem deserialize_inverts : Inverts (deserialize validPublicKey) serialize
    fun ack => ack.checkData validPublicKey = .ok () := by
  unfold deserialize
  refine .bind taker streamRead_inverts (fun _ _ => trivial) fun taker _ => ?_
  refine .bind inquiryHeight streamRead_inverts (fun _ _ => trivial) fun inquiryHeight _ => ?_
  refine .bind tradeHeight streamRead_inverts (fun _ _ => trivial) fun tradeHeight _ => ?_
  refine .bind share streamRead_inverts (fun _ _ => trivial) fun share _ => ?_
  refine .bind signature streamRead_inverts (fun _ _ => trivial) fun signature _ => ?_
  refine checked_inverts (fun a h => ?_) (fun h => ?_) fun a h => ?_
  · obtain ⟨⟨⟨⟨⟨h, rfl⟩, rfl⟩, rfl⟩, rfl⟩, rfl⟩ := h
    exact h
  · exact ⟨⟨⟨⟨⟨h, rfl⟩, rfl⟩, rfl⟩, rfl⟩, rfl⟩
  · obtain ⟨⟨⟨⟨⟨-, rfl⟩, rfl⟩, rfl⟩, rfl⟩, rfl⟩ := h
    rfl

end ExtensionTokenSwapInquiryAck

namespace ExtensionTokenSwapTakeAck

theorem deserialize_inverts : Inverts deserialize serialize fun ack => ack.checkData = .ok () := by
  unfold deserialize
  refine .bind taker streamRead_inverts (fun _ _ => trivial) fun taker _ => ?_
  refine .bind inquiryHeight streamRead_inverts (fun _ _ => trivial) fun inquiryHeight _ => ?_
  refine .bind takeHeight streamRead_inverts (fun _ _ => trivial) fun takeHeight _ => ?_
  refine .bind value streamRead_inverts (fun _ _ => trivial) fun value _ => ?_
  refine checked_inverts (fun a h => ?_) (fun h => ?_) fun a h => ?_
  · obtain ⟨⟨⟨⟨h, rfl⟩, rfl⟩, rfl⟩, rfl⟩ := h
    exact h
  · exact ⟨⟨⟨⟨h, rfl⟩, rfl⟩, rfl⟩, rfl⟩
  · obtain ⟨⟨⟨⟨-, rfl⟩, rfl⟩, rfl⟩, rfl⟩ := h
    rfl

end ExtensionTokenSwapTakeAck

namespace ExtensionTokenSwapTakeNack

theorem deserialize_inverts : Inverts deserialize serialize fun nack => nack.checkData = .ok () := by
  unfold deserialize
  refine .bind taker streamRead_inverts (fun _ _ => trivial) fun taker _ => ?_
  refine .bind inquiryHeight streamRead_inverts (fun _ _ => trivial) fun inquiryHeight _ => ?_
  refine checked_inverts (fun n h => ?_) (fun h => ⟨⟨h, rfl⟩, rfl⟩) fun n h => ?_
  · obtain ⟨⟨h, rfl⟩, rfl⟩ := h
    exact h
  · obtain ⟨⟨-, rfl⟩, rfl⟩ := h
    rfl

end ExtensionTokenSwapTakeNack

namespace ExtensionTokenSwap

-- One case for each sub-operation: the data of the others never stands under its number.
theorem readData_inverts (subOp : SubOp) : Inverts (readData validPublicKey subOp) data fun swap =>
    swap.checkData validPublicKey = .ok () ∧ swap.subOp = subOp := by
  unfold readData
  refine .ite (fun h => ?_) fun hconfig => ?_
  · subst h
    exact (field_inverts (fun _ => rfl) fun _ => rfl).branch (fun _ => Iff.rfl) (fun _ => rfl)
      (fun _ => rfl) fun swap h => by cases swap <;> first | exact ⟨_, rfl⟩ | cases h
  refine .ite (fun h => ?_) fun hmake => ?_
  · subst h
    exact ExtensionTokenSwapMake.deserialize_inverts.branch (fun _ => Iff.rfl) (fun _ => rfl)
      (fun _ => rfl) fun swap h => by cases swap <;> first | exact ⟨_, rfl⟩ | cases h
  refine .ite (fun h => ?_) fun hinquiry => ?_
  · subst h
    exact ExtensionTokenSwapInquiry.deserialize_inverts.branch (fun _ => Iff.rfl) (fun _ => rfl)
      (fun _ => rfl) fun swap h => by cases swap <;> first | exact ⟨_, rfl⟩ | cases h
  refine .ite (fun h => ?_) fun hinquiryAck => ?_
  · subst h
    exact ExtensionTokenSwapInquiryAck.deserialize_inverts.branch (fun _ => Iff.rfl) (fun _ => rfl)
      (fun _ => rfl) fun swap h => by cases swap <;> first | exact ⟨_, rfl⟩ | cases h
  refine .ite (fun h => ?_) fun htake => ?_
  · subst h
    exact (field_inverts (fun _ => rfl) fun _ => rfl).branch (fun _ => Iff.rfl) (fun _ => rfl)
      (fun _ => rfl) fun swap h => by cases swap <;> first | exact ⟨_, rfl⟩ | cases h
  refine .ite (fun h => ?_) fun htakeAck => ?_
  · subst h
    exact ExtensionTokenSwapTakeAck.deserialize_inverts.branch (fun _ => Iff.rfl) (fun _ => rfl)
      (fun _ => rfl) fun swap h => by cases swap <;> first | exact ⟨_, rfl⟩ | cases h
  refine .ite (fun h => ?_) fun htakeNack => ?_
  · subst h
    exact ExtensionTokenSwapTakeNack.deserialize_inverts.branch (fun _ => Iff.rfl) (fun _ => rfl)
      (fun _ => rfl) fun swap h => by cases swap <;> first | exact ⟨_, rfl⟩ | cases h
  refine .ite (fun h => ?_) fun hcancel => ?_
  · subst h
    exact (field_inverts (fun _ => rfl) fun _ => rfl).branch (fun _ => Iff.rfl) (fun _ => rfl)
      (fun _ => rfl) fun swap h => by cases swap <;> first | exact ⟨_, rfl⟩ | cases h
  refine .ite (fun h => ?_) fun hping => ?_
  · subst h
    exact (field_inverts (fun _ => rfl) fun _ => rfl).branch (fun _ => Iff.rfl) (fun _ => rfl)
      (fun _ => rfl) fun swap h => by cases swap <;> first | exact ⟨_, rfl⟩ | cases h
  refine .ite (fun h => ?_) fun hpong => ?_
  · subst h
    refine .congr (.done ⟨rfl, rfl⟩ fun swap h => ?_) (fun swap h => ?_) fun swap => Iff.rfl
    · cases swap <;> first | rfl | cases h.2
    · cases swap <;> first | rfl | cases h.2
  refine .fail fun swap h => ?_
  cases swap with
  | config data => exact hconfig h.2.symm
  | make data => exact hmake h.2.symm
  | inquiry data => exact hinquiry h.2.symm
  | inquiryAck data => exact hinquiryAck h.2.symm
  | take data => exact htake h.2.symm
  | takeAck data => exact htakeAck h.2.symm
  | takeNack data => exact htakeNack h.2.symm
  | cancel data => exact hcancel h.2.symm
  | ping data => exact hping h.2.symm
  | pong => exact hpong h.2.symm

theorem deserialize_inverts : Inverts (deserialize validPublicKey) serialize
    fun swap => swap.checkData validPublicKey = .ok () := by
  refine .bind subOp streamRead_inverts (fun _ _ => trivial) fun subOp _ => ?_
  refine .verify (fun swap h => ?_) fun _ => readData_inverts subOp
  rw [← h.2]
  cases swap <;> rfl

end ExtensionTokenSwap

namespace ExtensionTokenUnmap

theorem token_checked {unmap : ExtensionTokenUnmap} (h : unmap.checkData = .ok ()) :
    unmap.token.checkData = .ok () := by
  obtain ⟨_, htoken, -⟩ := (Except.bind_eq_ok _ _ _).mp h
  exact htoken

theorem deserialize_inverts :
    Inverts deserialize serialize fun unmap => unmap.checkData = .ok () := by
  unfold deserialize
  refine .bind token ExtensionTokenInfo.deserialize_inverts (fun _ => token_checked)
    fun token _ => ?_
  refine .bind to_ streamRead_inverts (fun _ _ => trivial) fun to_ _ => ?_
  refine .bind value streamRead_inverts (fun _ _ => trivial) fun value _ => ?_
  refine .bind extraData streamRead_inverts (fun _ _ => trivial) fun extraData _ => ?_
  refine checked_inverts (fun u h => ?_) (fun h => ?_) fun u h => ?_
  · obtain ⟨⟨⟨⟨h, rfl⟩, rfl⟩, rfl⟩, rfl⟩ := h
    exact h
  · exact ⟨⟨⟨⟨h, rfl⟩, rfl⟩, rfl⟩, rfl⟩
  · obtain ⟨⟨⟨⟨-, rfl⟩, rfl⟩, rfl⟩, rfl⟩ := h
    rfl

end ExtensionTokenUnmap

namespace ExtensionTokenWrap

theorem token_checked {wrap : ExtensionTokenWrap} (h : wrap.checkData = .ok ()) :
    wrap.token.checkData = .ok () := by
  obtain ⟨_, htoken, -⟩ := (Except.bind_eq_ok _ _ _).mp h
  exact htoken

theorem deserialize_inverts : Inverts deserialize serialize fun wrap => wrap.checkData = .ok () := by
  unfold deserialize
  refine .bind token ExtensionTokenInfo.deserialize_inverts (fun _ => token_checked)
    fun token _ => ?_
  refine .bind toChain streamRead_inverts (fun _ _ => trivial) fun toChain _ => ?_
  refine .bind toAccount streamRead_inverts (fun _ _ => trivial) fun toAccount _ => ?_
  refine .bind value streamRead_inverts (fun _ _ => trivial) fun value _ => ?_
  refine checked_inverts (fun w h => ?_) (fun h => ?_) fun w h => ?_
  · obtain ⟨⟨⟨⟨h, rfl⟩, rfl⟩, rfl⟩, rfl⟩ := h
    exact h
  · exact ⟨⟨⟨⟨h, rfl⟩, rfl⟩, rfl⟩, rfl⟩
  · obtain ⟨⟨⟨⟨-, rfl⟩, rfl⟩, rfl⟩, rfl⟩ := h
    rfl

end ExtensionTokenWrap

namespace ExtensionToken

-- Every string of the operation has a length that a byte can hold.
def Short : ExtensionToken → Prop
  | .create data => data.Short
  | .mint data => data.Short
  | _ => True

variable (validPublicKey) in
-- An operation that can stand in a block.
def Sound (token : ExtensionToken) : Prop :=
  token.checkData validPublicKey = .ok () ∧ token.Short

theorem readData_inverts (op : Op) : Inverts (readData validPublicKey streamRead op) data
    fun token => token.Sound validPublicKey ∧ token.op = op := by
  unfold readData
  refine .ite (fun h => ?_) fun hcreate => ?_
  · subst h
    exact ExtensionTokenCreate.deserialize_inverts.branch (fun _ => Iff.rfl) (fun _ => rfl)
      (fun _ => rfl) fun token h => by cases token <;> first | exact ⟨_, rfl⟩ | cases h
  refine .ite (fun h => ?_) fun hmint => ?_
  · subst h
    exact ExtensionTokenMint.deserialize_inverts.branch (fun _ => Iff.rfl) (fun _ => rfl)
      (fun _ => rfl) fun token h => by cases token <;> first | exact ⟨_, rfl⟩ | cases h
  refine .ite (fun h => ?_) fun hburn => ?_
  · subst h
    exact ExtensionTokenBurn.deserialize_inverts.branch (fun _ => iff_of_eq (and_true _)) (fun _ => rfl)
      (fun _ => rfl) fun token h => by cases token <;> first | exact ⟨_, rfl⟩ | cases h
  refine .ite (fun h => ?_) fun hsend => ?_
  · subst h
    exact ExtensionTokenSend.deserialize_inverts.branch (fun _ => iff_of_eq (and_true _)) (fun _ => rfl)
      (fun _ => rfl) fun token h => by cases token <;> first | exact ⟨_, rfl⟩ | cases h
  refine .ite (fun h => ?_) fun hreceive => ?_
  · subst h
    exact ExtensionTokenReceive.deserialize_inverts.branch (fun _ => iff_of_eq (and_true _)) (fun _ => rfl)
      (fun _ => rfl) fun token h => by cases token <;> first | exact ⟨_, rfl⟩ | cases h
  refine .ite (fun h => ?_) fun hswap => ?_
  · subst h
    exact ExtensionTokenSwap.deserialize_inverts.branch (fun _ => iff_of_eq (and_true _)) (fun _ => rfl)
      (fun _ => rfl) fun token h => by cases token <;> first | exact ⟨_, rfl⟩ | cases h
  refine .ite (fun h => ?_) fun hunmap => ?_
  · subst h
    exact ExtensionTokenUnmap.deserialize_inverts.branch (fun _ => iff_of_eq (and_true _)) (fun _ => rfl)
      (fun _ => rfl) fun token h => by cases token <;> first | exact ⟨_, rfl⟩ | cases h
  refine .ite (fun h => ?_) fun hwrap => ?_
  · subst h
    exact ExtensionTokenWrap.deserialize_inverts.branch (fun _ => iff_of_eq (and_true _)) (fun _ => rfl)
      (fun _ => rfl) fun token h => by cases token <;> first | exact ⟨_, rfl⟩ | cases h
  refine .fail fun token h => ?_
  cases token with
  | create data => exact hcreate h.2.symm
  | mint data => exact hmint h.2.symm
  | burn data => exact hburn h.2.symm
  | send data => exact hsend h.2.symm
  | receive data => exact hreceive h.2.symm
  | swap data => exact hswap h.2.symm
  | unmap data => exact hunmap h.2.symm
  | wrap data => exact hwrap h.2.symm

theorem checkOp_op (token : ExtensionToken) : checkOp token.op = .ok () := by
  cases token <;> rfl

-- No operation is written as its number alone.
theorem data_ne_nil (token : ExtensionToken) : token.data ≠ [] := by
  have hinfo (info : ExtensionTokenInfo) : info.serialize ≠ [] :=
    List.append_ne_nil_of_left_ne_nil (streamWrite_ne_nil info.chain (by decide)) _
  cases token with
  | create data =>
      exact List.append_ne_nil_of_left_ne_nil (streamWrite_ne_nil data.type (by decide)) _
  | mint data =>
      exact List.append_ne_nil_of_left_ne_nil (streamWrite_ne_nil data.type (by decide)) _
  | burn data =>
      exact List.append_ne_nil_of_left_ne_nil (streamWrite_ne_nil data.type (by decide)) _
  | send data => exact List.append_ne_nil_of_left_ne_nil (hinfo data.token) _
  | receive data => exact List.append_ne_nil_of_left_ne_nil (hinfo data.token) _
  | swap data =>
      exact List.append_ne_nil_of_left_ne_nil (streamWrite_ne_nil data.subOp (by decide)) _
  | unmap data => exact List.append_ne_nil_of_left_ne_nil (hinfo data.token) _
  | wrap data => exact List.append_ne_nil_of_left_ne_nil (hinfo data.token) _

theorem extensionValue_eq (token : ExtensionToken) :
    token.extensionValue = token.op :: token.data := by
  rw [extensionValue, streamWrite_byte]
  rfl

theorem parse_eq_ok {readIndex : StreamM UInt64} {op : Op} {bytes : List UInt8}
    {token : ExtensionToken} : parse validPublicKey readIndex op bytes = .ok token ↔
      checkOp op = .ok () ∧ readData validPublicKey readIndex op bytes = .ok token [] := by
  rw [parse, Except.bind_eq_ok]
  constructor
  · rintro ⟨_, hop, h⟩
    refine ⟨hop, ?_⟩
    split at h
    · cases h
      assumption
    · cases h
    · cases h
  · rintro ⟨hop, h⟩
    exact ⟨(), hop, by rw [h]⟩

-- The operations that are read in full are those that are written.
theorem fromValue_eq_ok {value : List UInt8} {token : ExtensionToken} :
    fromValue validPublicKey streamRead value = .ok token ↔
      token.Sound validPublicKey ∧ value = token.extensionValue := by
  have hne := token.data_ne_nil
  rw [extensionValue_eq]
  match value with
  | [] => simp [fromValue]
  | [op] => simp [fromValue, hne.symm]
  | op :: byte :: bytes =>
      rw [fromValue, parse_eq_ok, (readData_inverts op).exact_iff, List.cons.injEq]
      constructor
      · rintro ⟨-, ⟨hsound, rfl⟩, hdata⟩
        exact ⟨hsound, rfl, hdata⟩
      · rintro ⟨hsound, rfl, hdata⟩
        exact ⟨checkOp_op token, ⟨hsound, rfl⟩, hdata⟩

end ExtensionToken

-- What becomes of a payload when the error of the last read is not looked at.
section Lax

variable {α β : Type}

-- `read` returns what `strict` does, and where the stream ends in the last field it makes
-- up what is missing of it; `P` is known of the values that this happens to.
structure Lax (read strict : StreamM α) (P : α → Prop) : Prop where
  keeps : ∀ s a rest, strict s = .ok a rest → read s = .ok a rest
  adds : ∀ s a rest, read s = .ok a rest → strict s = .ok a rest ∨
    (P a ∧ rest = [] ∧ ∃ missing, missing ≠ [] ∧ missing.length ≤ 8 ∧
      strict (s ++ missing) = .ok a [])

theorem Lax.refl (read : StreamM α) (P : α → Prop) : Lax read read P where
  keeps _ _ _ h := h
  adds _ _ _ h := .inl h

-- The fields before the last one.
theorem Lax.bind {first : StreamM β} {write : β → List UInt8} {valid : β → Prop}
    {next next' : β → StreamM α} {P : α → Prop} (hfirst : Inverts first write valid)
    (hnext : ∀ b, Lax (next b) (next' b) P) : Lax (first >>= next) (first >>= next') P where
  keeps s a rest h := by
    obtain ⟨b, mid, hread, h⟩ := (Process.bind_eq_ok _ _ _ _ _).mp h
    exact Process.bind_then hread ((hnext b).keeps mid a rest h)
  adds s a rest h := by
    obtain ⟨b, mid, hread, h⟩ := (Process.bind_eq_ok _ _ _ _ _).mp h
    rcases (hnext b).adds mid a rest h with hstrict | ⟨hP, hrest, missing, hne, hle, hstrict⟩
    · exact .inl (Process.bind_then hread hstrict)
    · refine .inr ⟨hP, hrest, missing, hne, hle, ?_⟩
      exact Process.bind_then (hfirst.extend hread missing) hstrict

-- What comes after the last one reads nothing.
theorem Lax.finish {last last' : StreamM β} {next : β → StreamM α} {P : α → Prop} {Q : β → Prop}
    (hlast : Lax last last' Q)
    (hnext : ∀ b s a rest, next b s = .ok a rest →
      (Q b → P a) ∧ rest = s ∧ ∀ s', next b s' = .ok a s') :
    Lax (last >>= next) (last' >>= next) P where
  keeps s a rest h := by
    obtain ⟨b, mid, hread, h⟩ := (Process.bind_eq_ok _ _ _ _ _).mp h
    exact Process.bind_then (hlast.keeps s b mid hread) h
  adds s a rest h := by
    obtain ⟨b, mid, hread, h⟩ := (Process.bind_eq_ok _ _ _ _ _).mp h
    obtain ⟨hP, rfl, hall⟩ := hnext b mid a rest h
    rcases hlast.adds s b rest hread with hstrict | ⟨hQ, rfl, missing, hne, hle, hstrict⟩
    · exact .inl (Process.bind_then hstrict h)
    · exact .inr ⟨hP hQ, rfl, missing, hne, hle, Process.bind_then hstrict (hall [])⟩

theorem Lax.ite {condition : Prop} [Decidable condition] {read read' strict strict' : StreamM α}
    {P : α → Prop} (hyes : condition → Lax read strict P) (hno : ¬condition → Lax read' strict' P) :
    Lax (if condition then read else read') (if condition then strict else strict') P := by
  by_cases hcondition : condition
  · rw [if_pos hcondition, if_pos hcondition]
    exact hyes hcondition
  · rw [if_neg hcondition, if_neg hcondition]
    exact hno hcondition

end Lax

section Index

variable {unset : UInt64}

-- What is made up of an index that the stream cuts off.
def madeUp (unset : UInt64) (stream : List UInt8) : UInt64 :=
  Wire.ofNat (fromBigEndian (stream ++ (streamWrite unset).drop stream.length))

theorem readIndex_short {s : List UInt8} (h : s.length < 8) :
    readIndex unset s = .ok (madeUp unset s) [] := by
  have hread : (streamRead : StreamM UInt64) s = .error ErrorCode.STREAM [] := by
    have htake : Reader.take ErrorCode.STREAM (Wire.size UInt64) s = .error ErrorCode.STREAM [] :=
      if_neg (Nat.not_le.mpr h)
    exact Process.bind_of_error htake _
  rw [readIndex, hread]
  rfl

theorem readIndex_lax : Lax (readIndex unset) streamRead fun _ => True where
  keeps s index rest h := by
    rw [readIndex, h]
  adds s index rest h := by
    by_cases hlength : s.length < 8
    · rw [readIndex_short hlength] at h
      cases h
      have hsize : (streamWrite unset).length = 8 := streamWrite_length unset
      have hmissing : ((streamWrite unset).drop s.length).length = 8 - s.length := by
        rw [List.length_drop, hsize]
      refine .inr ⟨trivial, rfl, (streamWrite unset).drop s.length, ?_, ?_, ?_⟩
      · intro hnil
        rw [hnil, List.length_nil] at hmissing
        omega
      · omega
      · have hfield := (Inverts.take ErrorCode.STREAM 8).complete
          (s ++ (streamWrite unset).drop s.length) [] (by rw [List.length_append]; omega)
        rw [List.append_nil] at hfield
        exact Process.bind_then hfield rfl
    · -- there are enough bytes, so nothing is made up
      have htake : Reader.take ErrorCode.STREAM (Wire.size UInt64) s =
          .ok (s.take 8) (s.drop 8) := if_pos (Nat.not_lt.mp hlength)
      have hread : (streamRead : StreamM UInt64) s = .ok (Wire.ofNat (fromBigEndian (s.take 8)))
          (s.drop 8) := Process.bind_then htake rfl
      rw [readIndex, hread] at h
      exact .inl (hread.trans h)

namespace ExtensionTokenReceive

theorem deserialize_lax : Lax (deserialize (readIndex unset)) (deserialize streamRead)
    fun receive => indexed receive.source = true := by
  unfold deserialize
  refine .bind ExtensionTokenInfo.deserialize_inverts fun token => ?_
  refine .bind streamRead_inverts fun source => ?_
  refine .bind streamRead_inverts fun from_ => ?_
  refine .bind streamRead_inverts fun blockHeight => ?_
  refine .bind streamRead_inverts fun txHash => ?_
  refine .bind streamRead_inverts fun value => ?_
  refine .bind (streamRead_inverts.when _ _) fun unwrapChain => ?_
  by_cases hindexed : indexed source = true
  · unfold Reader.when
    simp only [if_pos hindexed]
    refine readIndex_lax.finish fun index s receive rest h => ?_
    split at h
    · obtain ⟨_, mid, hcheck, h⟩ := (Process.bind_eq_ok _ _ _ _ _).mp h
      obtain ⟨htests, rfl⟩ := (Process.check_eq_ok _ _ _ _).mp hcheck
      obtain ⟨rfl, rfl⟩ := (Process.pure_eq_ok _ _ _ _).mp h
      refine ⟨fun _ => hindexed, rfl, fun s' => ?_⟩
      rw [dif_pos ‹_›]
      exact Process.bind_then ((Process.check_eq_ok _ _ _ _).mpr ⟨htests, rfl⟩) rfl
    · cases h
  · unfold Reader.when
    simp only [if_neg hindexed]
    exact .refl _ _

-- The fields before the index.
def head (receive : ExtensionTokenReceive) : List UInt8 :=
  [receive.token.serialize, streamWrite receive.source, streamWrite receive.from_,
    streamWrite receive.blockHeight, streamWrite receive.txHash, streamWrite receive.value,
    if receive.source = .UNWRAP then streamWrite receive.unwrapChain else []].flatten

theorem serialize_of_indexed {receive : ExtensionTokenReceive}
    (h : indexed receive.source = true) :
    receive.serialize = receive.head ++ streamWrite receive.index := by
  simp only [serialize, head, List.flatten_cons, List.flatten_nil, List.append_nil, if_pos h,
    List.append_assoc]

-- A receive is read whatever becomes of its index.
theorem deserialize_head {receive : ExtensionTokenReceive} {readIndex : StreamM UInt64}
    {tail : List UInt8} {index : UInt64} (hcheck : receive.checkData = .ok ())
    (hindexed : indexed receive.source = true) (hread : readIndex tail = .ok index []) :
    ∃ received, deserialize readIndex (receive.head ++ tail) = .ok received [] := by
  have heq : (receive.source ≠ .UNWRAP → receive.unwrapChain = .INVALID) ∧
      (indexed receive.source = false → index = 0) :=
    ⟨receive.unwrapChain_eq, fun hfalse => Bool.noConfusion (hindexed.symm.trans hfalse)⟩
  refine ⟨⟨receive.token, receive.source, receive.from_, receive.blockHeight, receive.txHash,
    receive.value, receive.unwrapChain, index, heq.1, heq.2⟩, ?_⟩
  have hunwrap := (streamRead_inverts (α := Chain)).when (receive.source = .UNWRAP) Chain.INVALID
  unfold deserialize head
  simp only [List.flatten_cons, List.flatten_nil, List.append_nil, List.append_assoc]
  refine Process.bind_then (ExtensionTokenInfo.deserialize_inverts.complete _ _
    (token_checked hcheck)) ?_
  refine Process.bind_then (streamRead_inverts.complete _ _ trivial) ?_
  refine Process.bind_then (streamRead_inverts.complete _ _ trivial) ?_
  refine Process.bind_then (streamRead_inverts.complete _ _ trivial) ?_
  refine Process.bind_then (streamRead_inverts.complete _ _ trivial) ?_
  refine Process.bind_then (streamRead_inverts.complete _ _ trivial) ?_
  refine Process.bind_then (hunwrap.complete receive.unwrapChain tail ?_) ?_
  · split
    · trivial
    · exact receive.unwrapChain_eq ‹_›
  unfold Reader.when
  rw [if_pos hindexed]
  refine Process.bind_then hread ?_
  rw [dif_pos heq]
  exact Process.bind_then ((Process.check_eq_ok _ _ _ _).mpr ⟨hcheck, rfl⟩) rfl

end ExtensionTokenReceive

namespace ExtensionToken

-- The operations that end in an index.
def EndsInIndex (token : ExtensionToken) : Prop :=
  ∃ receive, indexed receive.source = true ∧ token = .receive receive

theorem readData_lax (op : Op) : Lax (readData validPublicKey (readIndex unset) op)
    (readData validPublicKey streamRead op) EndsInIndex := by
  unfold readData
  refine .ite (fun _ => .refl _ _) fun _ => ?_
  refine .ite (fun _ => .refl _ _) fun _ => ?_
  refine .ite (fun _ => .refl _ _) fun _ => ?_
  refine .ite (fun _ => .refl _ _) fun _ => ?_
  refine .ite (fun _ => ?_) fun _ => .refl _ _
  refine ExtensionTokenReceive.deserialize_lax.finish fun receive s token rest h => ?_
  obtain ⟨rfl, rfl⟩ := (Process.pure_eq_ok _ _ _ _).mp h
  exact ⟨fun hindexed => ⟨receive, hindexed, rfl⟩, rfl, fun _ => rfl⟩

theorem EndsInIndex.short {token : ExtensionToken} (h : token.EndsInIndex) : token.Short := by
  obtain ⟨_, -, rfl⟩ := h
  trivial

-- The encoding of `token`, which ends in an index, with up to all of that index cut off.
def CutsIndex (token : ExtensionToken) (value : List UInt8) : Prop :=
  token.EndsInIndex ∧
    ∃ missing, missing ≠ [] ∧ missing.length ≤ 8 ∧ value ++ missing = token.extensionValue

variable (validPublicKey) in
def CutIndex (value : List UInt8) : Prop :=
  ∃ token : ExtensionToken, token.checkData validPublicKey = .ok () ∧ token.CutsIndex value

-- No encoding is the beginning of another one.
theorem extensionValue_append {token other : ExtensionToken} {missing : List UInt8}
    (htoken : token.Sound validPublicKey) (hother : other.Sound validPublicKey)
    (h : token.extensionValue ++ missing = other.extensionValue) : missing = [] := by
  rw [extensionValue_eq, extensionValue_eq, List.cons_append, List.cons.injEq] at h
  obtain ⟨hop, hdata⟩ := h
  have hcancel := (readData_inverts other.op).cancel (t := []) ⟨htoken, hop⟩ ⟨hother, rfl⟩
    (hdata.trans (List.append_nil _).symm)
  exact hcancel.2

-- What `FromExtension` accepts was written in full, or lacks a part of its index.
theorem fromExtension_written {value : List UInt8} {token : ExtensionToken}
    (h : fromExtension validPublicKey unset value = .ok token) :
    token.Sound validPublicKey ∧ (value = token.extensionValue ∨ token.CutsIndex value) := by
  match value, h with
  | [], h => cases h
  | [op], h => cases h
  | op :: byte :: bytes, h =>
      obtain ⟨hop, hread⟩ := parse_eq_ok.mp h
      rcases (readData_lax op).adds _ _ _ hread with hstrict | ⟨hends, -, missing, hne, hle, hstrict⟩
      · have hwhole : fromValue validPublicKey streamRead (op :: byte :: bytes) = .ok token :=
          parse_eq_ok.mpr ⟨hop, hstrict⟩
        obtain ⟨hsound, hvalue⟩ := fromValue_eq_ok.mp hwhole
        exact ⟨hsound, .inl hvalue⟩
      · have hwhole : fromValue validPublicKey streamRead (op :: byte :: (bytes ++ missing)) =
            .ok token := parse_eq_ok.mpr ⟨hop, hstrict⟩
        obtain ⟨hsound, hvalue⟩ := fromValue_eq_ok.mp hwhole
        exact ⟨hsound, .inr ⟨hends, missing, hne, hle, hvalue⟩⟩

-- What is written is accepted as what it was.
theorem fromExtension_extensionValue {token : ExtensionToken} (h : token.Sound validPublicKey) :
    fromExtension validPublicKey unset token.extensionValue = .ok token := by
  have hstrict := fromValue_eq_ok.mpr ⟨h, rfl⟩
  cases hvalue : token.extensionValue with
  | nil => rw [hvalue] at hstrict; cases hstrict
  | cons op bytes =>
      rw [hvalue] at hstrict
      cases bytes with
      | nil => cases hstrict
      | cons byte bytes =>
          obtain ⟨hop, hread⟩ := parse_eq_ok.mp hstrict
          exact parse_eq_ok.mpr ⟨hop, (readData_lax op).keeps _ _ _ hread⟩

-- A payload without a part of its index is accepted as well.
theorem fromExtension_cut {value : List UInt8} (h : CutIndex validPublicKey value) :
    ∃ token, fromExtension validPublicKey unset value = .ok token := by
  obtain ⟨_, hcheck, ⟨receive, hindexed, rfl⟩, missing, hne, hle, hvalue⟩ := h
  have hindex : (streamWrite receive.index).length = 8 := streamWrite_length receive.index
  have hhead : receive.head ≠ [] := List.append_ne_nil_of_left_ne_nil
    (List.append_ne_nil_of_left_ne_nil (streamWrite_ne_nil receive.token.chain (by decide)) _) _
  rw [extensionValue_eq] at hvalue
  change value ++ missing = (Op.RECEIVE :: receive.serialize) at hvalue
  rw [ExtensionTokenReceive.serialize_of_indexed hindexed, ← List.cons_append] at hvalue
  -- what is left of the payload ends in what is left of its index
  have hlength := congrArg List.length hvalue
  rw [List.length_append, List.length_append, hindex] at hlength
  have hpositive := List.length_pos_iff.mpr hne
  obtain ⟨tail, rfl⟩ : ∃ tail, value = Op.RECEIVE :: receive.head ++ tail := by
    rcases List.append_eq_append_iff.mp hvalue with ⟨more, hmore, -⟩ | ⟨tail, htail, -⟩
    · rw [hmore, List.length_append] at hlength
      have hnil : more = [] := List.eq_nil_of_length_eq_zero (by omega)
      exact ⟨[], by rw [hmore, hnil, List.append_nil, List.append_nil]⟩
    · exact ⟨tail, htail⟩
  have htail : tail.length < 8 := by
    rw [List.length_append] at hlength
    omega
  obtain ⟨received, hread⟩ := ExtensionTokenReceive.deserialize_head hcheck hindexed
    (@readIndex_short unset _ htail)
  obtain ⟨byte, bytes, hbytes⟩ := List.exists_cons_of_ne_nil hhead
  refine ⟨.receive received, ?_⟩
  rw [hbytes] at hread ⊢
  exact parse_eq_ok.mpr ⟨rfl, Process.bind_then hread rfl⟩

end ExtensionToken

end Index

end Raicoin.Payload
