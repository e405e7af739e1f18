import Mathlib.Algebra.Group.Nat.Defs
import Mathlib.Tactic.Common

/-!
# Writes to PORTSC

The port registers of an xHCI controller hold bits of four kinds: read-only ones, sticky ones that keep
what is written, change bits that a 1 clears, and bits on which a 1 acts.  A write must have 0 in the last
two kinds where nothing is meant, and what was read in the sticky ones.

`reset_port` and `disable_port` are modelled with the list of their accesses to the register.  What the
register answers is arbitrary: read number `k` gives `portsc k`.  The capability registers are a memory of
32-bit words.
-/

set_option autoImplicit false

namespace Dem64.Xhci

/-- `CCS` -/
def ccs : BitVec 32 := 1#32 <<< 0

/-- `PED` -/
def ped : BitVec 32 := 1#32 <<< 1

/-- `OCA` -/
def oca : BitVec 32 := 1#32 <<< 3

/-- `PR` -/
def pr : BitVec 32 := 1#32 <<< 4

/-- `PLS_MASK` -/
def plsMask : BitVec 32 := 0xF#32 <<< 5

/-- `U0` -/
def u0 : BitVec 32 := 0#32 <<< 5

/-- `PRC` -/
def prc : BitVec 32 := 1#32 <<< 21

/-- `RO_MASK` -/
def roMask : BitVec 32 := 1#32 <<< 0 ||| 1#32 <<< 3 ||| 0xF#32 <<< 10 ||| 1#32 <<< 30

/-- `RWS_MASK` -/
def rwsMask : BitVec 32 := 0xF#32 <<< 5 ||| 1#32 <<< 9 ||| 0x3#32 <<< 14 ||| 0x7#32 <<< 25

/-- The change bits, 17 to 23. -/
def changeBits : BitVec 32 := 0x7F#32 <<< 17

/-- The register of a port that is gone reads as ones. -/
def portGone : BitVec 32 := 0xFFFFFFFF#32

/-- An access to the register. -/
inductive PortAccess where
  | read (value : BitVec 32)
  | write (value : BitVec 32)
deriving DecidableEq, Repr

/-- What `reset_port` and `disable_port` return. -/
inductive PortStatus where
  | resetSuccess
  | noDevice
  | resetStillAsserted
  | resetFailed
  | invalidPort
  | overCurrentCondition
  | invalidStatus
deriving DecidableEq, Repr

/-- A call: what it returns, and its accesses to the register. -/
structure PortRun where
  ret : PortStatus
  accesses : List PortAccess
deriving DecidableEq, Repr

/-- The call goes on like this. -/
def PortRun.after (l : List PortAccess) (r : PortRun) : PortRun := { r with accesses := l ++ r.accesses }

/-- The loop of `read_protocol_slot_type` over the extended capabilities: the slot type, and what is stored
through `major`. -/
def protocolLoop (cap : Nat → Nat) (port : Nat) : Nat → Nat → Nat × Option Nat
  | 0, _ => (0xFF, none)
  | remaining + 1, offset =>
    if offset = 0 then (0xFF, none)
    else
      let header := cap (offset / 4)
      let next := header >>> 8 &&& 0xFF
      let portInfo := cap ((offset + 0x08) % 2 ^ 32 / 4)
      let slotInfo := cap ((offset + 0x0C) % 2 ^ 32 / 4)
      let portOffset := portInfo &&& 0xFF
      let portCount := portInfo >>> 8 &&& 0xFF
      if header &&& 0xFF = 2 ∧ port ≥ portOffset ∧ port < portOffset + portCount then
        (slotInfo &&& 0x1F, some (header >>> 24 &&& 0xFF))
      else if next = 0 then (0xFF, none)
      else protocolLoop cap port remaining ((offset + next * 4) % 2 ^ 32)

/-- `read_protocol_slot_type`; word 4 of the capability registers is `hccparams1`. -/
def readProtocolSlotType (cap : Nat → Nat) (port : Nat) : Nat × Option Nat :=
  protocolLoop cap port 256 ((cap 4 >>> 16 &&& 0xFFFF) * 4)

/-- `xhci_portsc_neutral` -/
def xhciPortscNeutral (value : BitVec 32) : BitVec 32 := (value &&& roMask) ||| (value &&& rwsMask)

/-- `RESET_TIMEOUT` -/
def resetTimeout : Nat := 1000

/-- The rounds of `reset_port` that wait for the end of the reset, and what follows them; the next read is
number `k`. -/
def pollReset (portsc : Nat → BitVec 32) : Nat → Nat → PortRun
  | 0, k =>
    let status := portsc k
    ⟨if status ≠ portGone ∧ status &&& pr ≠ 0 then .resetStillAsserted else .resetFailed, [.read status]⟩
  | left + 1, k =>
    let status := portsc k
    if status = portGone then ⟨.invalidStatus, [.read status]⟩
    else if status &&& ccs = 0 then ⟨.noDevice, [.read status]⟩
    else if status &&& oca ≠ 0 then ⟨.overCurrentCondition, [.read status]⟩
    else if status &&& prc ≠ 0 then
      if status &&& pr ≠ 0 then ⟨.resetStillAsserted, [.read status]⟩
      else if status &&& ped = 0 then ⟨.resetFailed, [.read status]⟩
      else if status &&& plsMask ≠ u0 then ⟨.resetFailed, [.read status]⟩
      else ⟨.resetSuccess, [.read status]⟩
    else (pollReset portsc left (k + 1)).after [.read status]

/-- `reset_port` from the first write on; `status` was read before. -/
def startReset (portsc : Nat → BitVec 32) (status : BitVec 32) : PortRun :=
  let clear := xhciPortscNeutral status ||| prc
  let status := portsc 1
  if status = portGone then ⟨.invalidStatus, [.write clear, .read status]⟩
  else if status &&& ccs = 0 then ⟨.noDevice, [.write clear, .read status]⟩
  else if status &&& prc ≠ 0 then ⟨.resetFailed, [.write clear, .read status]⟩
  else
    (pollReset portsc resetTimeout 2).after
      [.write clear, .read status, .write (xhciPortscNeutral status ||| pr)]

/-- `reset_port` on a controller with `count` ports. -/
def resetPort (count : Nat) (cap : Nat → Nat) (portsc : Nat → BitVec 32) (port : Nat) : PortRun :=
  if port < 1 ∨ port > count then ⟨.invalidPort, []⟩
  else
    let status := portsc 0
    if status = portGone then ⟨.invalidStatus, [.read status]⟩
    else if status &&& ccs = 0 then ⟨.noDevice, [.read status]⟩
    else if status &&& oca ≠ 0 then ⟨.overCurrentCondition, [.read status]⟩
    else if status &&& pr ≠ 0 then ⟨.resetStillAsserted, [.read status]⟩
    else
      let protocolMajor := (readProtocolSlotType cap port).2.getD 0
      if protocolMajor ≥ 3 ∧ status &&& ped ≠ 0 ∧ status &&& plsMask = u0 then
        ⟨.resetSuccess, [.read status]⟩
      else (startReset portsc status).after [.read status]

/-- The rounds of `disable_port` that wait until the port is disabled, and what follows them. -/
def pollDisabled (portsc : Nat → BitVec 32) : Nat → Nat → PortRun
  | 0, k => ⟨if portsc k &&& ped ≠ 0 then .resetFailed else .resetSuccess, [.read (portsc k)]⟩
  | left + 1, k =>
    if portsc k &&& ped = 0 then
      (PortRun.mk (if portsc (k + 1) &&& ped ≠ 0 then .resetFailed else .resetSuccess)
        [.read (portsc (k + 1))]).after [.read (portsc k)]
    else (pollDisabled portsc left (k + 1)).after [.read (portsc k)]

/-- `disable_port` -/
def disablePort (count : Nat) (portsc : Nat → BitVec 32) (port : Nat) : PortRun :=
  if port < 1 ∨ port > count then ⟨.invalidPort, []⟩
  else
    let status := portsc 0
    if status = portGone then ⟨.invalidStatus, [.read status]⟩
    else
      -- the register is set to the complement of `PED` here
      (pollDisabled portsc 100 2).after
        [.read status, .write (status &&& ~~~pr ||| ~~~ped), .read (portsc 1)]

/-! ## What is written -/

/-- The writes, each with the value that was read last before; `last` was read before the list. -/
def portWrites (last : BitVec 32) : List PortAccess → List (BitVec 32 × BitVec 32)
  | [] => []
  | .read value :: l => portWrites value l
  | .write value :: l => (last, value) :: portWrites last l

/-- The value `new` is written after `old` was read: no change bit is 1 but those of `clear`, and the sticky
bits are kept. -/
structure WriteOk (clear old new : BitVec 32) : Prop where
  change : new &&& changeBits &&& ~~~clear = 0
  sticky : new &&& rwsMask = old &&& rwsMask

/-- The port is connected and enabled, not in reset, and its link is in U0. -/
structure PortEnabled (status : BitVec 32) : Prop where
  connected : status &&& ccs ≠ 0
  enabled : status &&& ped ≠ 0
  reset : status &&& pr = 0
  link : status &&& plsMask = u0

/-- The writes of `reset_port` are as they should be, and so is its success. -/
structure ResetOk (r : PortRun) : Prop where
  write : ∀ (k : Nat) (old new : BitVec 32), (portWrites 0 r.accesses)[k]? = some (old, new) →
    WriteOk (if k = 0 then prc else 0) old new ∧ new &&& ped = 0 ∧ (k ≠ 1 → new &&& pr = 0)
  success : r.ret = .resetSuccess → ∃ l status, r.accesses = l ++ [.read status] ∧ PortEnabled status

/-- The writes of `disable_port` are as they should be. -/
def DisableOk (r : PortRun) : Prop :=
  ∀ (k : Nat) (old new : BitVec 32), (portWrites 0 r.accesses)[k]? = some (old, new) → WriteOk 0 old new ∧ new &&& pr = 0

section

variable {count port left k : Nat} {cap : Nat → Nat} {portsc : Nat → BitVec 32} {status last v c keep mask : BitVec 32}

/-! ## The polls -/

/-- The polls of a reset write nothing, and success means that the port is enabled. -/
theorem pollReset_spec : portWrites last (pollReset portsc left k).accesses = [] ∧
    ((pollReset portsc left k).ret = .resetSuccess →
      ∃ l status, (pollReset portsc left k).accesses = l ++ [.read status] ∧ PortEnabled status) := by
  induction left generalizing k last with
  | zero =>
    refine ⟨rfl, fun h => ?_⟩
    rw [pollReset] at h
    split at h <;> cases h
  | succ left ih =>
    rw [pollReset]
    split
    · exact ⟨rfl, nofun⟩
    split
    · exact ⟨rfl, nofun⟩
    rename_i hccs
    split
    · exact ⟨rfl, nofun⟩
    split
    · split
      · exact ⟨rfl, nofun⟩
      rename_i hpr
      split
      · exact ⟨rfl, nofun⟩
      rename_i hped
      split
      · exact ⟨rfl, nofun⟩
      rename_i hlink
      exact ⟨rfl, fun _ => ⟨[], portsc k, rfl, hccs, hped, not_not.mp hpr, not_not.mp hlink⟩⟩
    · obtain ⟨hw, hs⟩ := @ih (k + 1) (portsc k)
      refine ⟨hw, fun h => ?_⟩
      obtain ⟨l, status, heq, hstatus⟩ := hs h
      refine ⟨.read (portsc k) :: l, status, ?_, hstatus⟩
      show .read (portsc k) :: (pollReset portsc left (k + 1)).accesses = _
      rw [heq]
      rfl

theorem portWrites_pollDisabled : portWrites last (pollDisabled portsc left k).accesses = [] := by
  induction left generalizing k last with
  | zero => rfl
  | succ left ih =>
    rw [pollDisabled]
    split
    · rfl
    · exact ih

/-! ## The bits -/

theorem xhciPortscNeutral_eq : xhciPortscNeutral v = v &&& (roMask ||| rwsMask) :=
  BitVec.and_or_distrib_left.symm

theorem keep_or_and : ((v &&& keep) ||| c) &&& mask = (v &&& (keep &&& mask)) ||| (c &&& mask) := by
  rw [BitVec.and_or_distrib_right, BitVec.and_assoc]

/-- Bits that are neither kept nor set are 0. -/
theorem keep_or_and_eq_zero (hkeep : keep &&& mask = 0#32) (hset : c &&& mask = 0#32) :
    ((v &&& keep) ||| c) &&& mask = 0#32 := by
  rw [keep_or_and, hkeep, hset, BitVec.and_zero, BitVec.or_zero]

/-- Bits that are kept and not set are as before. -/
theorem keep_or_and_eq (hkeep : keep &&& mask = mask) (hset : c &&& mask = 0#32) :
    ((v &&& keep) ||| c) &&& mask = v &&& mask := by
  rw [keep_or_and, hkeep, hset, BitVec.or_zero]

/-- The first write of `reset_port`. -/
theorem clear_ok : WriteOk prc v (xhciPortscNeutral v ||| prc) ∧ (xhciPortscNeutral v ||| prc) &&& ped = 0 ∧
    (xhciPortscNeutral v ||| prc) &&& pr = 0 := by
  rw [xhciPortscNeutral_eq]
  refine ⟨⟨?_, keep_or_and_eq (by decide) (by decide)⟩, keep_or_and_eq_zero (by decide) (by decide),
    keep_or_and_eq_zero (by decide) (by decide)⟩
  rw [BitVec.and_assoc]
  exact keep_or_and_eq_zero (by decide) (by decide)

/-- The second one. -/
theorem reset_ok : WriteOk 0 v (xhciPortscNeutral v ||| pr) ∧ (xhciPortscNeutral v ||| pr) &&& ped = 0 := by
  rw [xhciPortscNeutral_eq]
  refine ⟨⟨?_, keep_or_and_eq (by decide) (by decide)⟩, keep_or_and_eq_zero (by decide) (by decide)⟩
  rw [BitVec.and_assoc]
  exact keep_or_and_eq_zero (by decide) (by decide)

/-! ## The calls -/

/-- The writes of `reset_port` from the first one on. -/
theorem portWrites_startReset : portWrites status (startReset portsc status).accesses <+:
    [(status, xhciPortscNeutral status ||| prc), (portsc 1, xhciPortscNeutral (portsc 1) ||| pr)] := by
  rw [startReset]
  split
  · exact ⟨[_], rfl⟩
  split
  · exact ⟨[_], rfl⟩
  split
  · exact ⟨[_], rfl⟩
  · show _ :: _ :: portWrites _ (pollReset portsc resetTimeout 2).accesses <+: _
    exact ⟨[], by rw [pollReset_spec.1, List.append_nil]⟩

theorem pollReset_ret (h : (pollReset portsc left k).ret = .resetSuccess) :
    ∃ l status, (pollReset portsc left k).accesses = l ++ [.read status] ∧ PortEnabled status :=
  (@pollReset_spec left k portsc 0).2 h

theorem startReset_success (h : (startReset portsc status).ret = .resetSuccess) :
    ∃ l status', (startReset portsc status).accesses = l ++ [.read status'] ∧ PortEnabled status' := by
  rw [startReset] at h ⊢
  split at h
  · cases h
  split at h
  · cases h
  split at h
  · cases h
  rw [if_neg (by assumption), if_neg (by assumption), if_neg (by assumption)]
  obtain ⟨l, status', heq, hstatus⟩ := pollReset_ret h
  exact ⟨_, status', by rw [PortRun.after, heq, ← List.append_assoc], hstatus⟩

/-- **`reset_port` writes as it should.** -/
theorem resetPort_ok (count : Nat) (cap : Nat → Nat) (portsc : Nat → BitVec 32) (port : Nat) :
    ResetOk (resetPort count cap portsc port) := by
  have hnone : ∀ {r : PortRun}, portWrites 0 r.accesses = [] →
      (r.ret = .resetSuccess → ∃ l status, r.accesses = l ++ [.read status] ∧ PortEnabled status) → ResetOk r := by
    intro r hr hs
    refine ⟨fun k old new hk => ?_, hs⟩
    rw [hr] at hk
    cases hk
  rw [resetPort]
  dsimp only
  split
  · exact hnone rfl nofun
  split
  · exact hnone rfl nofun
  split
  · exact hnone rfl nofun
  rename_i hccs
  split
  · exact hnone rfl nofun
  split
  · exact hnone rfl nofun
  rename_i hpr
  split
  · rename_i hu0
    exact hnone rfl fun _ => ⟨[], _, rfl, hccs, hu0.2.1, not_not.mp hpr, hu0.2.2⟩
  refine ⟨fun k old new hk => ?_, fun hs => ?_⟩
  · obtain ⟨t, ht⟩ := @portWrites_startReset portsc (portsc 0)
    have hk : (portWrites (portsc 0) (startReset portsc (portsc 0)).accesses)[k]? = some (old, new) := hk
    have hk' : [(portsc 0, xhciPortscNeutral (portsc 0) ||| prc),
        (portsc 1, xhciPortscNeutral (portsc 1) ||| pr)][k]? = some (old, new) := by
      rw [← ht, List.getElem?_append_left (List.getElem?_eq_some_iff.mp hk).1, hk]
    match k, hk' with
    | 0, hk' =>
      cases hk'
      exact ⟨clear_ok.1, clear_ok.2.1, fun _ => clear_ok.2.2⟩
    | 1, hk' =>
      cases hk'
      exact ⟨reset_ok.1, reset_ok.2, fun hne => absurd rfl hne⟩
  · obtain ⟨l, status, heq, hstatus⟩ := startReset_success hs
    exact ⟨.read (portsc 0) :: l, status, congrArg (PortAccess.read (portsc 0) :: ·) heq, hstatus⟩

/-- What `disable_port` writes: ones in all bits but `PED`. -/
theorem disablePort_writes (hport : ¬ (port < 1 ∨ port > count)) (hgone : portsc 0 ≠ portGone) :
    portWrites 0 (disablePort count portsc port).accesses = [(portsc 0, portsc 0 &&& ~~~pr ||| ~~~ped)] := by
  rw [disablePort, if_neg hport, if_neg hgone]
  show _ :: portWrites _ (pollDisabled portsc 100 2).accesses = _
  rw [portWrites_pollDisabled]

/-- **`disable_port` writes as it should if it writes nothing.** -/
theorem disablePort_ok_iff : DisableOk (disablePort count portsc port) ↔
    port < 1 ∨ port > count ∨ portsc 0 = portGone := by
  rw [← or_assoc]
  constructor
  · intro hok
    by_contra hcond
    rw [not_or] at hcond
    have hw := disablePort_writes hcond.1 hcond.2
    have hpr := (hok 0 _ _ (by rw [hw]; rfl)).2
    rw [BitVec.and_or_distrib_right, BitVec.and_assoc, show ~~~pr &&& pr = 0#32 by decide, BitVec.and_zero,
      BitVec.zero_or] at hpr
    exact absurd hpr (by decide)
  · intro hcond k old new hk
    have hnil : portWrites 0 (disablePort count portsc port).accesses = [] := by
      rw [disablePort]
      split
      · rfl
      · rename_i hport
        rw [if_pos (hcond.resolve_left hport)]
        rfl
    rw [hnil] at hk
    cases hk

end

/-- **All writes to PORTSC are as they should be if `disable_port` makes none.** -/
theorem portscWrites_ok_iff (count : Nat) (cap : Nat → Nat) (portsc portsc' : Nat → BitVec 32) (port port' : Nat) :
    ResetOk (resetPort count cap portsc port) ∧ DisableOk (disablePort count portsc' port') ↔
      port' < 1 ∨ port' > count ∨ portsc' 0 = portGone := by
  rw [disablePort_ok_iff, and_iff_right (resetPort_ok count cap portsc port)]

/-- A port that is powered, connected and enabled. -/
theorem portscWrites_not_ok : ¬ ∀ (count : Nat) (cap : Nat → Nat) (portsc portsc' : Nat → BitVec 32) (port port' : Nat),
    ResetOk (resetPort count cap portsc port) ∧ DisableOk (disablePort count portsc' port') := by
  intro hclaim
  have h := (hclaim 1 (fun _ => 0) (fun _ => 0x203#32) (fun _ => 0x203#32) 1 1).2
  rw [disablePort_ok_iff] at h
  revert h
  decide

end Dem64.Xhci
