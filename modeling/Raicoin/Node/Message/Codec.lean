import Raicoin.Node.Message.Basic

-- Each part of a message is read back from its bytes, and from nothing else.
namespace Raicoin

open Lib

namespace MessageHeader

private theorem ofNumber_number (type : MessageType) :
    MessageType.ofNumber type.number = some type := by
  cases type <;> rfl

private theorem number_ofNumber {number : UInt8} {type : MessageType}
    (h : MessageType.ofNumber number = some type) : type.number = number := by
  have hall : ∀ k < 11, (MessageType.ofNumber (UInt8.ofNat k)).map MessageType.number =
      some (UInt8.ofNat k) := by
    decide
  have hlt : number.toNat < 11 := (List.getElem?_eq_some_iff.mp h).1
  have hnumber := hall _ hlt
  rw [UInt8.ofNat_toNat, h] at hnumber
  exact Option.some.inj hnumber

theorem readType_inverts :
    Inverts readType (fun type => streamWrite type.number) fun type => type ≠ .invalid := by
  unfold readType
  refine .congr ?_ (fun type _ => (List.append_nil _).symm) fun type => Iff.rfl
  refine .bind MessageType.number streamRead_inverts (fun _ _ => trivial) fun number _ => ?_
  refine .guard (fun type htype hzero => htype.1 ?_) fun hzero => ?_
  · have hsome := ofNumber_number type
    rw [htype.2, hzero] at hsome
    exact (Option.some.inj hsome).symm
  · cases hnumber : MessageType.ofNumber number with
    | some type =>
        refine .done ⟨?_, number_ofNumber hnumber⟩ fun other hother => ?_
        · rintro rfl
          exact hzero (number_ofNumber hnumber).symm
        · have hsome := ofNumber_number other
          rw [hother.2, hnumber] at hsome
          exact (Option.some.inj hsome).symm
    | none =>
        refine .fail fun other hother => ?_
        have hsome := ofNumber_number other
        rw [hother.2, hnumber] at hsome
        cases hsome

theorem readProxy_inverts :
    Inverts readProxy (fun proxy => streamWrite proxy.1.ip ++
      (streamWrite proxy.1.port ++ (streamWrite proxy.2 ++ []))) fun _ => True := by
  unfold readProxy
  refine .bind (fun proxy : Endpoint × UInt16 => proxy.1.ip) streamRead_inverts
    (fun _ _ => trivial) fun ip _ => ?_
  refine .bind (fun proxy : Endpoint × UInt16 => proxy.1.port) streamRead_inverts
    (fun _ _ => trivial) fun port _ => ?_
  refine .bind (fun proxy : Endpoint × UInt16 => proxy.2) streamRead_inverts
    (fun _ _ => trivial) fun length _ => ?_
  exact .done ⟨⟨⟨trivial, rfl⟩, rfl⟩, rfl⟩ fun proxy ⟨⟨⟨_, hip⟩, hport⟩, hlength⟩ => by
    rw [← hip, ← hport, ← hlength]

theorem deserialize_inverts (network : RaiNetworks) :
    Inverts (deserialize network) (fun header => header.serialize network) Checked := by
  have hmagic : (magicNumber network).length = 2 := by cases network <;> rfl
  unfold deserialize serialize
  simp only [List.flatten_cons, List.flatten_nil]
  refine .bind (fun _ : MessageHeader => magicNumber network) (streamReadBytes_inverts 2)
    (fun _ _ => hmagic) fun magic _ => ?_
  refine .guard (fun header hheader => not_not.mpr hheader.2.symm) fun hmagic => ?_
  refine .bind versionUsing streamRead_inverts (fun _ _ => trivial) fun versionUsing _ => ?_
  refine .guard (fun header hheader => UInt8.not_lt.mpr (hheader.2 ▸ hheader.1.1.versionUsing_le))
    fun husing => ?_
  refine .bind versionMin streamRead_inverts (fun _ _ => trivial) fun versionMin _ => ?_
  refine .guard (fun header hheader => UInt8.not_lt.mpr (hheader.2 ▸ hheader.1.1.1.versionMin_le))
    fun hmin => ?_
  refine .bind type readType_inverts (fun header hheader => hheader.1.1.1.type_ne)
    fun type htype => ?_
  refine .bind flags streamRead_inverts (fun _ _ => trivial) fun flags _ => ?_
  refine .bind extension streamRead_inverts (fun _ _ => trivial) fun extension _ => ?_
  have hproxied {header : MessageHeader} (hflags : header.flags = flags) :
      header.getFlag .proxy = flags.toNat.testBit MessageFlags.proxy.index := by
    rw [getFlag, hflags]
  refine .congr (?_ : Inverts _ (fun header : MessageHeader =>
    (if flags.toNat.testBit MessageFlags.proxy.index = true then
      streamWrite header.peerEndpoint.ip ++ (streamWrite header.peerEndpoint.port ++
        (streamWrite header.payloadLength ++ [])) else []) ++ []) _) (fun header hheader => ?_)
    fun header => Iff.rfl
  · refine .bind (fun header : MessageHeader => (header.peerEndpoint, header.payloadLength))
      (readProxy_inverts.when _ _) (fun header hheader => ?_) fun proxy hproxy => ?_
    · split_ifs with hflag
      rw [← hproxied hheader.1.2, Bool.not_eq_true] at hflag
      obtain ⟨hendpoint, hlength⟩ := hheader.1.1.1.1.1.1.proxy hflag
      rw [hendpoint, hlength]
    · refine .done ?_ fun header hheader => ?_
      · refine ⟨⟨⟨⟨⟨⟨⟨⟨?_, ?_, htype, fun hflag => ?_⟩, ?_⟩, rfl⟩, rfl⟩, rfl⟩, rfl⟩, rfl⟩, rfl⟩
        · exact UInt8.not_lt.mp husing
        · exact UInt8.not_lt.mp hmin
        · have hclear : ¬flags.toNat.testBit MessageFlags.proxy.index = true := by
            rw [Bool.not_eq_true]
            exact hflag
          rw [if_neg hclear] at hproxy
          rw [hproxy]
          exact ⟨rfl, rfl⟩
        · exact (not_not.mp hmagic).symm
      · obtain ⟨⟨⟨⟨⟨⟨⟨-, -⟩, rfl⟩, rfl⟩, rfl⟩, rfl⟩, rfl⟩, rfl⟩ := hheader
        rfl
  · rw [hproxied hheader.1.2]
    split <;> simp

end MessageHeader

theorem HandshakeMessage.parse_inverts (extension : UInt16) :
    Inverts (parse extension) (serialize extension) (Checked extension) := by
  unfold parse
  refine .guard (fun b hb => ?_) fun htype => ?_
  · rcases hb.type with h | h <;> simp [h]
  have htypes : extension = REQUEST ∨ extension = RESPONSE := by
    by_contra hnone
    exact htype (not_or.mp hnone)
  by_cases hrequest : extension = REQUEST
  · unfold serialize
    simp only [hrequest, if_true, List.flatten_cons, List.flatten_nil]
    refine .bind timestamp streamRead_inverts (fun _ _ => trivial) fun timestamp _ => ?_
    refine .bind cookie streamRead_inverts (fun _ _ => trivial) fun cookie _ => ?_
    refine .bind account streamRead_inverts (fun _ _ => trivial) fun account _ => ?_
    refine .done ⟨⟨⟨⟨.inl rfl, fun _ => rfl, fun h => absurd rfl h⟩, rfl⟩, rfl⟩, rfl⟩ fun b hb => ?_
    obtain ⟨⟨⟨hchecked, rfl⟩, rfl⟩, rfl⟩ := hb
    rw [← hchecked.request rfl]
  · unfold serialize
    simp only [hrequest, if_false, List.flatten_cons, List.flatten_nil]
    refine .bind account streamRead_inverts (fun _ _ => trivial) fun account _ => ?_
    refine .bind signature streamRead_inverts (fun _ _ => trivial) fun signature _ => ?_
    refine .done ⟨⟨⟨htypes, fun h => absurd h hrequest, fun _ => ⟨rfl, rfl⟩⟩, rfl⟩, rfl⟩
      fun b hb => ?_
    obtain ⟨⟨hchecked, rfl⟩, rfl⟩ := hb
    obtain ⟨htimestamp, hcookie⟩ := hchecked.response hrequest
    rw [← htimestamp, ← hcookie]

theorem KeepliveMessage.readPeer_inverts :
    Inverts readPeer writePeer fun _ => True := by
  unfold readPeer writePeer
  simp only [List.flatten_cons, List.flatten_nil]
  refine .bind (fun peer : Account × Endpoint => peer.1) streamRead_inverts (fun _ _ => trivial)
    fun account _ => ?_
  refine .bind (fun peer : Account × Endpoint => peer.2.ip) streamRead_inverts
    (fun _ _ => trivial) fun ip _ => ?_
  refine .bind (fun peer : Account × Endpoint => peer.2.port) streamRead_inverts
    (fun _ _ => trivial) fun port _ => ?_
  exact .done ⟨⟨⟨trivial, rfl⟩, rfl⟩, rfl⟩ fun peer ⟨⟨⟨_, haccount⟩, hip⟩, hport⟩ => by
    rw [← haccount, ← hip, ← hport]

theorem KeepliveMessage.parse_inverts (ack : Bool) (extension : UInt16) :
    Inverts (parse ack extension) (serialize ack) (Checked ack extension) := by
  unfold parse
  refine .guard (fun b hb => Nat.not_lt.mpr hb.total_le) fun htotal => ?_
  refine .guard (fun b hb => Nat.not_lt.mpr hb.reachable_le) fun hreachable => ?_
  have htotal_le := Nat.not_lt.mp htotal
  have hreachable_le := Nat.not_lt.mp hreachable
  unfold serialize
  cases ack with
  | true =>
      simp only [if_true, List.flatten_cons, List.flatten_nil]
      refine .bind hash streamRead_inverts (fun _ _ => trivial) fun hash _ => ?_
      refine .bind account streamRead_inverts (fun _ _ => trivial) fun account _ => ?_
      refine .done ⟨⟨⟨htotal_le, hreachable_le, fun _ => ⟨rfl, rfl, rfl⟩, nofun⟩, rfl⟩, rfl⟩
        fun b hb => ?_
      obtain ⟨⟨hchecked, rfl⟩, rfl⟩ := hb
      obtain ⟨hpeers, htimestamp, hsignature⟩ := hchecked.answer rfl
      rw [← hpeers, ← htimestamp, ← hsignature]
  | false =>
      simp only [Bool.false_eq_true, if_false, List.flatten_cons, List.flatten_nil]
      refine .bind peers (readPeer_inverts.times _)
        (fun b hb => ⟨(hb.announce rfl).1, fun _ _ => trivial⟩) fun peers hpeers => ?_
      refine .bind timestamp streamRead_inverts (fun _ _ => trivial) fun timestamp _ => ?_
      refine .bind account streamRead_inverts (fun _ _ => trivial) fun account _ => ?_
      refine .bind signature streamRead_inverts (fun _ _ => trivial) fun signature _ => ?_
      refine .done ⟨⟨⟨⟨⟨htotal_le, hreachable_le, nofun, fun _ => ⟨hpeers.1, rfl⟩⟩, rfl⟩, rfl⟩,
        rfl⟩, rfl⟩ fun b hb => ?_
      obtain ⟨⟨⟨⟨hchecked, rfl⟩, rfl⟩, rfl⟩, rfl⟩ := hb
      rw [← (hchecked.announce rfl).2]

theorem PublishMessage.parse_inverts (extension : UInt16) :
    Inverts (parse extension) (serialize extension) (Checked extension) := by
  unfold parse serialize
  simp only [List.flatten_cons, List.flatten_nil]
  refine .guard (fun b hb => ?_) fun hextension => ?_
  · rcases hb.extension_eq with h | h <;> simp [h]
  refine .bind account (streamRead_inverts.when _ _) (fun b hb => ?_) fun account haccount => ?_
  · split_ifs with h
    exact hb.account h
  refine .bind block deserializeBlockUnverify_inverts (fun b hb => hb.1.block) fun block hblock => ?_
  refine .done ⟨⟨⟨?_, fun h => ?_, hblock⟩, rfl⟩, rfl⟩ fun b hb => ?_
  · by_contra hnone
    exact hextension (not_or.mp hnone)
  · rwa [if_neg h] at haccount
  · obtain ⟨⟨-, rfl⟩, rfl⟩ := hb
    rfl

theorem ConfirmMessage.deserialize_inverts (env : Env) :
    Inverts (deserialize env) serialize fun b => b.block.Verified env := by
  unfold deserialize serialize
  simp only [List.flatten_cons, List.flatten_nil]
  refine .bind timestamp streamRead_inverts (fun _ _ => trivial) fun timestamp _ => ?_
  refine .bind representative streamRead_inverts (fun _ _ => trivial) fun representative _ => ?_
  refine .bind signature streamRead_inverts (fun _ _ => trivial) fun signature _ => ?_
  refine .bind block (deserializeBlock_inverts env) (fun b hb => hb.1.1.1) fun block hblock => ?_
  refine .done ⟨⟨⟨⟨hblock, rfl⟩, rfl⟩, rfl⟩, rfl⟩ fun b hb => ?_
  obtain ⟨⟨⟨⟨-, rfl⟩, rfl⟩, rfl⟩, rfl⟩ := hb
  rfl

theorem ConfirmMessage.parse_inverts (env : Env) :
    Inverts (parse env) serialize (Checked env) := by
  refine .congr ?_ (fun b _ => (List.append_nil _).symm) fun b => Iff.rfl
  refine .bind (fun b : ConfirmMessage => b) (deserialize_inverts env) (fun b hb => hb.block)
    fun b hb => ?_
  refine .guard (fun c hc => ?_) fun hsignature => ?_
  · rw [← hc.2, hc.1.signature]
    exact Bool.false_ne_true
  · exact .done ⟨⟨hb, Bool.eq_false_iff.mpr hsignature⟩, rfl⟩ fun c hc => hc.2

theorem QueryMessage.readBlock_inverts (env : Env) :
    Inverts (readBlock env) (fun found => (found.map Block.serialize).getD [])
      fun found => ∃ block, found = some block ∧ block.Verified env := by
  refine (deserializeBlock_inverts env).inject (fun found => ?_) fun block _ => rfl
  constructor
  · rintro ⟨block, rfl, hblock⟩
    exact ⟨block, hblock, rfl⟩
  · rintro ⟨block, hblock, rfl⟩
    exact ⟨block, rfl, hblock⟩

theorem QueryMessage.parse_inverts (env : Env) (ack : Bool) (extension : UInt16) :
    Inverts (parse env ack extension) (serialize ack extension) (Checked env ack extension) := by
  unfold parse
  refine .guard (fun b hb => hb.queryBy_ne) fun hby => ?_
  refine .guard (fun b hb h => hb.queryStatus_ne h.1 h.2) fun hstatus => ?_
  refine .congr (?_ : Inverts _ (fun b : QueryMessage => streamWrite b.sequence ++
    (streamWrite b.account ++ (streamWrite b.height ++
      ((if HasHash extension then streamWrite b.hash else []) ++
        ((if HasBlock ack extension then (b.block.map Block.serialize).getD [] else []) ++ []))))) _)
    (fun b hb => ?_) fun b => Iff.rfl
  · refine .bind sequence streamRead_inverts (fun _ _ => trivial) fun sequence _ => ?_
    refine .bind account streamRead_inverts (fun _ _ => trivial) fun account _ => ?_
    refine .bind height streamRead_inverts (fun _ _ => trivial) fun height _ => ?_
    refine .bind hash (streamRead_inverts.when _ _) (fun b hb => ?_) fun hash hhash => ?_
    · split_ifs with h
      exact hb.1.1.1.hash h
    refine .bind block ((readBlock_inverts env).when _ _) (fun b hb => ?_) fun block hblock => ?_
    · split_ifs with h
      · exact hb.1.1.1.1.block_some h
      · exact hb.1.1.1.1.block_none h
    refine .verify (fun b hb => ?_) fun hcheck => ?_
    · obtain ⟨⟨⟨⟨⟨hchecked, rfl⟩, rfl⟩, rfl⟩, rfl⟩, rfl⟩ := hb
      exact hchecked.check
    refine .done ⟨⟨⟨⟨⟨⟨hby, fun hack h => hstatus ⟨hack, h⟩, fun h => ?_, fun h => ?_, fun h => ?_,
      hcheck⟩, rfl⟩, rfl⟩, rfl⟩, rfl⟩, rfl⟩ fun b hb => ?_
    · rwa [if_neg h] at hhash
    · rwa [if_pos h] at hblock
    · rwa [if_neg h] at hblock
    · obtain ⟨⟨⟨⟨⟨-, rfl⟩, rfl⟩, rfl⟩, rfl⟩, rfl⟩ := hb
      rfl
  · unfold serialize
    simp only [List.flatten_cons, List.flatten_nil]
    cases b.block with
    | none => simp
    | some block => rfl

theorem ForkMessage.deserialize_inverts (env : Env) :
    Inverts (deserialize env) serialize fun b => b.first.Verified env ∧ b.second.Verified env := by
  unfold deserialize serialize
  simp only [List.flatten_cons, List.flatten_nil]
  refine .bind first (deserializeBlock_inverts env) (fun b hb => hb.1) fun first hfirst => ?_
  refine .bind second (deserializeBlock_inverts env) (fun b hb => hb.1.2) fun second hsecond => ?_
  refine .done ⟨⟨⟨hfirst, hsecond⟩, rfl⟩, rfl⟩ fun b hb => ?_
  obtain ⟨⟨-, rfl⟩, rfl⟩ := hb
  rfl

theorem ForkMessage.parse_inverts (env : Env) : Inverts (parse env) serialize (Checked env) := by
  refine .congr ?_ (fun b _ => (List.append_nil _).symm) fun b => Iff.rfl
  refine .bind (fun b : ForkMessage => b) (deserialize_inverts env)
    (fun b hb => ⟨hb.first, hb.second⟩) fun b hb => ?_
  refine .verify (fun c hc => hc.2 ▸ hc.1.check) fun hcheck => ?_
  exact .done ⟨⟨hb.1, hb.2, hcheck⟩, rfl⟩ fun c hc => hc.2

theorem ConflictMessage.deserialize_inverts (env : Env) :
    Inverts (deserialize env) serialize
      fun b => b.blockFirst.Verified env ∧ b.blockSecond.Verified env := by
  have hblock := (deserializeBlock_inverts env).orCode .MESSAGE_CONFLICT_BLOCK
  unfold deserialize serialize
  simp only [List.flatten_cons, List.flatten_nil]
  refine .bind representative streamRead_inverts (fun _ _ => trivial) fun representative _ => ?_
  refine .bind timestampFirst streamRead_inverts (fun _ _ => trivial) fun timestampFirst _ => ?_
  refine .bind timestampSecond streamRead_inverts (fun _ _ => trivial) fun timestampSecond _ => ?_
  refine .bind signatureFirst streamRead_inverts (fun _ _ => trivial) fun signatureFirst _ => ?_
  refine .bind signatureSecond streamRead_inverts (fun _ _ => trivial) fun signatureSecond _ => ?_
  refine .bind blockFirst hblock (fun b hb => hb.1.1.1.1.1.1) fun blockFirst hfirst => ?_
  refine .bind blockSecond hblock (fun b hb => hb.1.1.1.1.1.1.2) fun blockSecond hsecond => ?_
  refine .done ⟨⟨⟨⟨⟨⟨⟨⟨hfirst, hsecond⟩, rfl⟩, rfl⟩, rfl⟩, rfl⟩, rfl⟩, rfl⟩, rfl⟩ fun b hb => ?_
  obtain ⟨⟨⟨⟨⟨⟨⟨-, rfl⟩, rfl⟩, rfl⟩, rfl⟩, rfl⟩, rfl⟩, rfl⟩ := hb
  rfl

theorem ConflictMessage.parse_inverts (env : Env) :
    Inverts (parse env) serialize (Checked env) := by
  refine .congr ?_ (fun b _ => (List.append_nil _).symm) fun b => Iff.rfl
  refine .bind (fun b : ConflictMessage => b) (deserialize_inverts env)
    (fun b hb => ⟨hb.first, hb.second⟩) fun b hb => ?_
  refine .verify (fun c hc => hc.2 ▸ hc.1.check) fun hcheck => ?_
  exact .done ⟨⟨hb.1, hb.2, hcheck⟩, rfl⟩ fun c hc => hc.2

theorem WeightMessage.readAnswer_inverts :
    Inverts readAnswer (fun answer => streamWrite answer.1 ++
      (streamWrite answer.2.1 ++ (streamWrite answer.2.2 ++ []))) fun _ => True := by
  unfold readAnswer
  refine .bind (fun answer : UInt32 × Amount × Account => answer.1) streamRead_inverts
    (fun _ _ => trivial) fun epoch _ => ?_
  refine .bind (fun answer : UInt32 × Amount × Account => answer.2.1) streamRead_inverts
    (fun _ _ => trivial) fun weight _ => ?_
  refine .bind (fun answer : UInt32 × Amount × Account => answer.2.2) streamRead_inverts
    (fun _ _ => trivial) fun replier _ => ?_
  exact .done ⟨⟨⟨trivial, rfl⟩, rfl⟩, rfl⟩ fun answer ⟨⟨⟨_, hepoch⟩, hweight⟩, hreplier⟩ => by
    rw [← hepoch, ← hweight, ← hreplier]

theorem WeightMessage.parse_inverts (ack : Bool) :
    Inverts (parse ack) (serialize ack) (Checked ack) := by
  unfold parse serialize
  simp only [List.flatten_cons, List.flatten_nil]
  refine .bind requestId streamRead_inverts (fun _ _ => trivial) fun requestId _ => ?_
  refine .bind rep streamRead_inverts (fun _ _ => trivial) fun rep _ => ?_
  refine .bind (fun b : WeightMessage => (b.epoch, b.weight, b.replier))
    (readAnswer_inverts.when _ _) (fun b hb => ?_) fun answer hanswer => ?_
  · split_ifs with hack
    obtain ⟨hepoch, hweight, hreplier⟩ := hb.1.1 (Bool.eq_false_iff.mpr hack)
    rw [hepoch, hweight, hreplier]
  · refine .done ⟨⟨⟨fun hack => ?_, rfl⟩, rfl⟩, rfl⟩ fun b hb => ?_
    · rw [hack, if_neg Bool.false_ne_true] at hanswer
      rw [hanswer]
      exact ⟨rfl, rfl, rfl⟩
    · obtain ⟨⟨⟨-, rfl⟩, rfl⟩, rfl⟩ := hb
      rfl

theorem CrosschainMessage.length_toNat {b : CrosschainMessage} (h : b.Checked) :
    b.length.toNat = b.payload.length :=
  UInt16.toNat_ofNat_of_lt' h

theorem CrosschainMessage.parse_inverts : Inverts parse serialize Checked := by
  unfold parse
  refine .congr (?_ : Inverts _ (fun b : CrosschainMessage => streamWrite b.source ++
    (streamWrite b.destination ++ (streamWrite b.chain ++ (streamWrite b.length ++
      ((if b.length > 0 then b.payload else []) ++ []))))) _) (fun b hb => ?_) fun b => Iff.rfl
  · refine .bind source streamRead_inverts (fun _ _ => trivial) fun source _ => ?_
    refine .bind destination streamRead_inverts (fun _ _ => trivial) fun destination _ => ?_
    refine .bind chain streamRead_inverts (fun _ _ => trivial) fun chain _ => ?_
    refine .bind length streamRead_inverts (fun _ _ => trivial) fun length _ => ?_
    refine .congr (?_ : Inverts _ (fun b : CrosschainMessage =>
      (if length > 0 then b.payload else []) ++ []) _) (fun b hb => by rw [hb.2]) fun b => Iff.rfl
    refine .bind payload ((streamReadBytes_inverts length.toNat).when _ _) (fun b hb => ?_)
      fun payload hpayload => ?_
    · have htoNat := length_toNat hb.1.1.1.1
      rw [hb.2] at htoNat
      split_ifs with hpos
      · exact htoNat.symm
      · have hzero : length = 0 := by
          simpa [UInt16.pos_iff_ne_zero] using hpos
        rw [hzero] at htoNat
        exact List.eq_nil_of_length_eq_zero htoNat.symm
    · have hlength : payload.length = length.toNat := by
        split_ifs at hpayload with hpos
        · exact hpayload
        · have hzero : length = 0 := by
            simpa [UInt16.pos_iff_ne_zero] using hpos
          rw [hpayload, hzero]
          rfl
      refine .done ⟨⟨⟨⟨⟨?_, rfl⟩, rfl⟩, rfl⟩, ?_⟩, rfl⟩ fun b hb => ?_
      · rw [Checked, hlength]
        exact length.toNat_lt
      · change UInt16.ofNat payload.length = length
        rw [hlength, UInt16.ofNat_toNat]
      · obtain ⟨⟨⟨⟨⟨-, rfl⟩, rfl⟩, rfl⟩, -⟩, rfl⟩ := hb
        rfl
  · unfold serialize
    simp only [List.flatten_cons, List.flatten_nil, length_toNat hb, List.take_length]

theorem MessageBody.parse_inverts (env : Env) (type : MessageType) (ack : Bool)
    (extension : UInt16) :
    Inverts (parse env type ack extension) (serialize ack extension)
      (Checked env type ack extension) := by
  have hnone {type : MessageType} (hhandshake : type ≠ .handshake) (hkeeplive : type ≠ .keeplive)
      (hpublish : type ≠ .publish) (hconfirm : type ≠ .confirm) (hquery : type ≠ .query)
      (hfork : type ≠ .fork) (hconflict : type ≠ .conflict) (hweight : type ≠ .weight)
      (hcrosschain : type ≠ .crosschain) (body : MessageBody) :
      ¬body.Checked env type ack extension := by
    cases body <;> simp_all [Checked]
  cases type with
  | invalid => exact .fail (hnone nofun nofun nofun nofun nofun nofun nofun nofun nofun)
  | bootstrap => exact .fail (hnone nofun nofun nofun nofun nofun nofun nofun nofun nofun)
  | handshake =>
      refine (HandshakeMessage.parse_inverts extension).inject (fun body => ?_) fun _ _ => rfl
      cases body <;> simp [Checked]
  | keeplive =>
      refine (KeepliveMessage.parse_inverts ack extension).inject (fun body => ?_) fun _ _ => rfl
      cases body <;> simp [Checked]
  | publish =>
      refine (PublishMessage.parse_inverts extension).inject (fun body => ?_) fun _ _ => rfl
      cases body <;> simp [Checked]
  | confirm =>
      refine (ConfirmMessage.parse_inverts env).inject (fun body => ?_) fun _ _ => rfl
      cases body <;> simp [Checked]
  | query =>
      refine (QueryMessage.parse_inverts env ack extension).inject (fun body => ?_) fun _ _ => rfl
      cases body <;> simp [Checked]
  | fork =>
      refine (ForkMessage.parse_inverts env).inject (fun body => ?_) fun _ _ => rfl
      cases body <;> simp [Checked]
  | conflict =>
      refine (ConflictMessage.parse_inverts env).inject (fun body => ?_) fun _ _ => rfl
      cases body <;> simp [Checked]
  | weight =>
      refine (WeightMessage.parse_inverts ack).inject (fun body => ?_) fun _ _ => rfl
      cases body <;> simp [Checked]
  | crosschain =>
      refine CrosschainMessage.parse_inverts.inject (fun body => ?_) fun _ _ => rfl
      cases body <;> simp [Checked]

namespace MessageParser

variable {env : Env} {m : Message}

-- What the parser reads: a message, or what a proxy is to relay.
def Received (env : Env) (m : Message) : Prop :=
  m.header.Checked ∧
    if m.header.getFlag .proxy = true ∧ m.header.getFlag .relay = false then
      ∃ payload, m.body = .relay payload ∧ payload.length = m.header.payloadLength.toNat
    else m.body.Checked env m.header.type (m.header.getFlag .ack) m.header.extension

theorem read_inverts (env : Env) : Inverts (read env) (Message.toBytes env) (Received env) := by
  refine .bind Message.header (MessageHeader.deserialize_inverts env.network) (fun m hm => hm.1)
    fun header hheader => ?_
  by_cases hproxy : header.getFlag .proxy = true ∧ header.getFlag .relay = false
  · rw [if_pos hproxy]
    refine ((streamReadBytes_inverts header.payloadLength.toNat).inject
      (w := fun m : Message => m.body.serialize (header.getFlag .ack) header.extension)
      (fun m => ?_) fun payload _ => rfl).congr (fun m hm => ?_) fun m => Iff.rfl
    · constructor
      · rintro ⟨hm, rfl⟩
        rw [Received, if_pos hproxy] at hm
        obtain ⟨-, payload, hbody, hlength⟩ := hm
        exact ⟨payload, hlength, by rw [← hbody]⟩
      · rintro ⟨payload, hlength, rfl⟩
        refine ⟨⟨hheader, ?_⟩, rfl⟩
        rw [if_pos hproxy]
        exact ⟨payload, rfl, hlength⟩
    · obtain ⟨-, rfl⟩ := hm
      rfl
  · rw [if_neg hproxy]
    refine ((MessageBody.parse_inverts env header.type (header.getFlag .ack)
      header.extension).inject
      (w := fun m : Message => m.body.serialize (header.getFlag .ack) header.extension)
      (fun m => ?_) fun body _ => rfl).congr (fun m hm => ?_) fun m => Iff.rfl
    · constructor
      · rintro ⟨hm, rfl⟩
        rw [Received, if_neg hproxy] at hm
        exact ⟨m.body, hm.2, rfl⟩
      · rintro ⟨body, hbody, rfl⟩
        refine ⟨⟨hheader, ?_⟩, rfl⟩
        rw [if_neg hproxy]
        exact hbody
    · obtain ⟨-, rfl⟩ := hm
      rfl

-- The parser takes exactly the bytes of a message: no part of them and nothing longer.
theorem parse_toBytes (h : Received env m) : parse env (m.toBytes env) = .ok (relayed m) := by
  rw [parse, ((read_inverts env).exact_iff _ m).mpr ⟨h, rfl⟩]

theorem parse_short (h : Received env m) {front back : List UInt8}
    (hbytes : m.toBytes env = front ++ back) (hback : back ≠ []) :
    ∃ code, parse env front = .error code := by
  obtain ⟨code, rest, hread⟩ := (read_inverts env).short_fails h hbytes hback
  exact ⟨code, by rw [parse, hread]⟩

theorem parse_long (h : Received env m) {extra : List UInt8} (hextra : extra ≠ []) :
    ∃ code, parse env (m.toBytes env ++ extra) = .error code := by
  have hread := (read_inverts env).complete m extra h
  obtain ⟨first, rest, rfl⟩ := List.exists_cons_of_ne_nil hextra
  exact ⟨.STREAM, by rw [parse, hread]⟩

end MessageParser

end Raicoin
