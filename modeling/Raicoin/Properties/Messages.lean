import Raicoin.Node.BlockProcessor.Replay
import Raicoin.Node.Message.Codec

-- What a peer reads of the bytes that it is sent.
namespace Raicoin

open Lib

-- The bytes are parsed as one message; no part of them and nothing longer is parsed.
structure Arrives (env : Env) (bytes : List UInt8) (m : Message) : Prop where
  parsed : MessageParser.parse env bytes = .ok m
  short : ∀ front back, bytes = front ++ back → back ≠ [] →
    ∃ code, MessageParser.parse env front = .error code
  long : ∀ extra, extra ≠ [] → ∃ code, MessageParser.parse env (bytes ++ extra) = .error code

namespace MessageHeader

@[simp] theorem getFlag_setFlag (header : MessageHeader) (flag other : MessageFlags) :
    (header.setFlag flag).getFlag other = (header.getFlag other || decide (flag = other)) := by
  have hmask : flag.mask.toNat.testBit other.index = decide (flag = other) := by
    cases flag <;> cases other <;> rfl
  rw [getFlag, setFlag, UInt8.toNat_or, Nat.testBit_or, hmask]
  rfl

@[simp] theorem setFlag_type (header : MessageHeader) (flag : MessageFlags) :
    (header.setFlag flag).type = header.type := rfl

@[simp] theorem setFlag_extension (header : MessageHeader) (flag : MessageFlags) :
    (header.setFlag flag).extension = header.extension := rfl

@[simp] theorem setFlag_payloadLength (header : MessageHeader) (flag : MessageFlags) :
    (header.setFlag flag).payloadLength = header.payloadLength := rfl

theorem Checked.of_proxied {header header' : MessageHeader} (h : header.Checked)
    (husing : header'.versionUsing = header.versionUsing)
    (hmin : header'.versionMin = header.versionMin) (htype : header'.type = header.type)
    (hproxy : header'.getFlag .proxy = true) : header'.Checked where
  versionUsing_le := husing ▸ h.versionUsing_le
  versionMin_le := hmin ▸ h.versionMin_le
  type_ne := htype ▸ h.type_ne
  proxy hclear := by
    rw [hproxy] at hclear
    cases hclear

end MessageHeader

section Arrives

variable {env : Env} {m : Message}

theorem MessageParser.Received.arrives (h : MessageParser.Received env m) :
    Arrives env (m.toBytes env) (MessageParser.relayed m) where
  parsed := MessageParser.parse_toBytes h
  short _ _ hbytes hback := MessageParser.parse_short h hbytes hback
  long _ hextra := MessageParser.parse_long h hextra

-- A body depends on the flag `ACK` and on the extension of its header.
theorem Message.payload_congr {n : Message} (hbody : n.body = m.body)
    (hack : n.header.getFlag .ack = m.header.getFlag .ack)
    (hextension : n.header.extension = m.header.extension) : n.payload = m.payload := by
  rw [payload, payload, hbody, hack, hextension]

-- The header of a message that is given to a proxy.
def Message.proxiedHeader (m : Message) (peerEndpoint : Endpoint) : MessageHeader :=
  { m.header.setFlag .proxy with
    peerEndpoint := peerEndpoint
    payloadLength := UInt16.ofNat m.payload.length }

theorem Message.proxiedHeader_getFlag (m : Message) (peerEndpoint : Endpoint)
    (flag : MessageFlags) : (m.proxiedHeader peerEndpoint).getFlag flag =
      (m.header.getFlag flag || decide (MessageFlags.proxy = flag)) :=
  m.header.getFlag_setFlag .proxy flag

theorem Message.enableProxy_eq (env : Env) (m : Message) (peerEndpoint : Endpoint) :
    m.enableProxy env peerEndpoint = ⟨m.proxiedHeader peerEndpoint, m.body⟩ := by
  let proxied : Message :=
    { m with header := { m.header.setFlag .proxy with peerEndpoint := peerEndpoint } }
  have hpayload : proxied.payload = m.payload :=
    payload_congr rfl ((m.header.getFlag_setFlag .proxy .ack).trans (Bool.or_false _)) rfl
  have hlength : (proxied.toBytes env).length - (proxied.header.serialize env.network).length =
      m.payload.length := by
    rw [toBytes, List.length_append, Nat.add_sub_cancel_left, hpayload]
  exact congrArg (fun length => (⟨{ m.header.setFlag .proxy with
    peerEndpoint := peerEndpoint, payloadLength := UInt16.ofNat length }, m.body⟩ : Message)) hlength

theorem Message.Checked.arrives (h : m.Checked env)
    (hdirect : m.header.getFlag .proxy = true → m.header.getFlag .relay = true) :
    Arrives env (m.toBytes env) m := by
  have hnot : ¬(m.header.getFlag .proxy = true ∧ m.header.getFlag .relay = false) := by
    rintro ⟨hproxy, hrelay⟩
    rw [hdirect hproxy] at hrelay
    cases hrelay
  have hreceived : MessageParser.Received env m := ⟨h.header, by rw [if_neg hnot]; exact h.body⟩
  have hrelayed : MessageParser.relayed m = m := by
    have hbody := h.body
    unfold MessageParser.relayed
    split
    · rename_i hrelay
      rw [hrelay] at hbody
      exact absurd hbody id
    · rfl
  have harrives := hreceived.arrives
  rwa [hrelayed] at harrives

-- The proxy reads the endpoint and the payload as bytes.
theorem Message.Checked.proxied_arrives (h : m.Checked env) (peerEndpoint : Endpoint)
    (hrelay : m.header.getFlag .relay = false) (hlength : m.payload.length < 2 ^ 16) :
    Arrives env ((m.enableProxy env peerEndpoint).toBytes env)
      ⟨(m.proxiedHeader peerEndpoint).setFlag .relay, .relay m.payload⟩ := by
  have hproxied : (m.proxiedHeader peerEndpoint).getFlag .proxy = true := by
    rw [proxiedHeader_getFlag]
    exact Bool.or_true _
  have hunrelayed : (m.proxiedHeader peerEndpoint).getFlag .relay = false := by
    rw [proxiedHeader_getFlag, hrelay]
    rfl
  have hreceived : MessageParser.Received env
      ⟨m.proxiedHeader peerEndpoint, .relay m.payload⟩ := by
    refine ⟨h.header.of_proxied rfl rfl rfl hproxied, ?_⟩
    rw [if_pos ⟨hproxied, hunrelayed⟩]
    exact ⟨m.payload, rfl, (UInt16.toNat_ofNat_of_lt' hlength).symm⟩
  have hbytes : (m.enableProxy env peerEndpoint).toBytes env =
      Message.toBytes env ⟨m.proxiedHeader peerEndpoint, .relay m.payload⟩ := by
    have hpayload : Message.payload ⟨m.proxiedHeader peerEndpoint, m.body⟩ = m.payload :=
      payload_congr rfl ((m.proxiedHeader_getFlag peerEndpoint .ack).trans (Bool.or_false _)) rfl
    rw [enableProxy_eq, toBytes, hpayload]
    rfl
  rw [hbytes]
  exact hreceived.arrives

-- What the proxy sends on is the message again.
theorem Message.Checked.relayed_arrives (h : m.Checked env) (peerEndpoint : Endpoint) :
    Arrives env
      (Message.toBytes env ⟨(m.proxiedHeader peerEndpoint).setFlag .relay, .relay m.payload⟩)
      ⟨(m.proxiedHeader peerEndpoint).setFlag .relay, m.body⟩ := by
  have hflag (flag : MessageFlags) : ((m.proxiedHeader peerEndpoint).setFlag .relay).getFlag flag =
      (m.header.getFlag flag || decide (MessageFlags.proxy = flag) ||
        decide (MessageFlags.relay = flag)) := by
    rw [MessageHeader.getFlag_setFlag, proxiedHeader_getFlag]
  have hack : ((m.proxiedHeader peerEndpoint).setFlag .relay).getFlag .ack =
      m.header.getFlag .ack := by
    rw [hflag]
    simp
  have hchecked : Message.Checked env ⟨(m.proxiedHeader peerEndpoint).setFlag .relay, m.body⟩ := by
    refine ⟨h.header.of_proxied rfl rfl rfl ?_, ?_⟩
    · rw [hflag]
      simp
    · have hbody := h.body
      rw [← hack] at hbody
      exact hbody
  have hpayload :
      Message.payload ⟨(m.proxiedHeader peerEndpoint).setFlag .relay, m.body⟩ = m.payload :=
    payload_congr rfl hack rfl
  have harrives := hchecked.arrives fun _ => by
    rw [hflag]
    simp
  rwa [toBytes, hpayload] at harrives

end Arrives

-- Every message arrives as it was sent, directly and by way of a proxy. A header with the
-- flag `PROXY` and without `RELAY` is the proxy's.
theorem message_codec (env : Env) :
    (∀ m : Message, m.Checked env →
      (m.header.getFlag .proxy = true → m.header.getFlag .relay = true) →
        Arrives env (m.toBytes env) m) ∧
    (∀ (m : Message) (peerEndpoint : Endpoint), m.Checked env →
      m.header.getFlag .relay = false → m.payload.length ≤ 65535 →
        let header : MessageHeader :=
          { (m.header.setFlag .proxy).setFlag .relay with
            peerEndpoint := peerEndpoint
            payloadLength := UInt16.ofNat m.payload.length }
        let relay : Message := ⟨header, .relay m.payload⟩
        Arrives env ((m.enableProxy env peerEndpoint).toBytes env) relay ∧
          Arrives env (relay.toBytes env) ⟨header, m.body⟩) :=
  ⟨fun _ h hdirect => h.arrives hdirect, fun _ peerEndpoint h hrelay hlength =>
    ⟨h.proxied_arrives peerEndpoint hrelay (Nat.lt_succ_of_le hlength),
      h.relayed_arrives peerEndpoint⟩⟩

def sampleWeight (flags : UInt8) : Message where
  header := ⟨2, 1, .weight, flags, 0, .none, 0⟩
  body := .weight ⟨7, 8, 0, 0, 0⟩

-- A weight query with the flag `PROXY` is taken for one to relay, and one with the flag
-- `RELAY` is not relayed again.
theorem flags_decide :
    (sampleWeight 1).Checked sampleEnv ∧
      MessageParser.parse sampleEnv ((sampleWeight 1).toBytes sampleEnv) ≠ .ok (sampleWeight 1) ∧
      (sampleWeight 2).Checked sampleEnv ∧ (sampleWeight 2).payload.length ≤ 65535 ∧
      ∀ header payload, MessageParser.parse sampleEnv
        (((sampleWeight 2).enableProxy sampleEnv ⟨1, 2⟩).toBytes sampleEnv) ≠
          .ok ⟨header, .relay payload⟩ := by
  have hchecked (flags : UInt8) :
      (sampleWeight flags).Checked sampleEnv := by
    refine ⟨⟨?_, ?_, nofun, fun _ => ⟨rfl, rfl⟩⟩, rfl, fun _ => ⟨rfl, rfl, rfl⟩⟩
    · exact (by decide : (1 : UInt8) ≤ 2)
    · exact (by decide : (1 : UInt8) ≤ 2)
  refine ⟨hchecked 1, by decide, hchecked 2, by decide, ?_⟩
  intro header payload hparse
  have hsent : MessageParser.parse sampleEnv
      (((sampleWeight 2).enableProxy sampleEnv ⟨1, 2⟩).toBytes sampleEnv) =
        .ok ((sampleWeight 2).enableProxy sampleEnv ⟨1, 2⟩) := by
    decide
  rw [hsent] at hparse
  cases hparse

end Raicoin
