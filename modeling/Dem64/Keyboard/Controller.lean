import Dem64.Ports
import Mathlib.Data.List.Infix

/-!
# The keyboard controller

`ps2_controller_init` (`ps2.cpp`) talks to the controller through two ports: commands go to 0x64, and data is
written to and read from 0x60.  The status, which is read from 0x64, says when this may be done.

`ps2ControllerInit_protocol` is about every controller, whatever it answers: the driver waits for the
status before each command and each byte of data, it says the script of the initialisation or a beginning of it, and
it reports success exactly when it has come to the end of the script.  The interrupt of the keyboard is enabled by the
last byte of the script, and this byte is sent only behind an acknowledgement.
-/

set_option autoImplicit false

namespace Dem64

namespace Ps2

open Interaction Interaction.Prog Ports

/-! ## The driver -/

/-- The polls left in a loop over the status. -/
def waitStatus (ready : BitVec 8 → Bool) : Nat → PortM Bool
  | 0 => pure false
  | polls + 1 => do
    let status ← inb 0x64
    if ready status then pure true else waitStatus ready polls

/-- The controller takes a byte. -/
def InputEmpty (status : BitVec 8) : Bool := status &&& 0x02 = 0

/-- The controller has a byte. -/
def OutputFull (status : BitVec 8) : Bool := status &&& 0x01 ≠ 0

/-- `ps2_wait_input_empty`. -/
def ps2WaitInputEmpty : PortM Bool := waitStatus InputEmpty 100000

/-- `ps2_wait_output_full`. -/
def ps2WaitOutputFull : PortM Bool := waitStatus OutputFull 100000

/-- `ps2_command`. -/
def ps2Command (command : BitVec 8) : PortM Bool := do
  if ← ps2WaitInputEmpty then
    outb 0x64 command
    pure true
  else pure false

/-- `ps2_write_data`. -/
def ps2WriteData (data : BitVec 8) : PortM Bool := do
  if ← ps2WaitInputEmpty then
    outb 0x60 data
    pure true
  else pure false

/-- `ps2_read_data`. -/
def ps2ReadData : PortM (Option (BitVec 8)) := do
  if ← ps2WaitOutputFull then
    let data ← inb 0x60
    pure (some data)
  else pure none

/-- `ps2_write_config`. -/
def ps2WriteConfig (config : BitVec 8) : PortM Bool := do
  if ← ps2Command 0x60 then ps2WriteData config else pure false

/-- The rounds left in the loop that drains the output of the controller. -/
def drain : Nat → PortM Unit
  | 0 => pure ()
  | rounds + 1 => do
    let status ← inb 0x64
    if OutputFull status then
      let _ ← inb 0x60
      drain rounds
    else pure ()

/-- The configuration without the interrupt, with the clock of the first port and with translation. -/
def quietConfig (config : BitVec 8) : BitVec 8 := (config &&& ~~~0x01 &&& ~~~0x10) ||| 0x40

/-- `ps2_controller_init`. -/
def ps2ControllerInit : PortM Bool := do
  if ← ps2Command 0xAD then
    if ← ps2Command 0xA7 then
      drain 32
      if ← ps2Command 0x20 then
        match ← ps2ReadData with
        | none => pure false
        | some config =>
          if ← ps2WriteConfig (quietConfig config) then
            if ← ps2Command 0xAE then
              if ← ps2WriteData 0xF4 then
                match ← ps2ReadData with
                | none => pure false
                | some response =>
                  if response = 0xFA then
                    if ← ps2WriteConfig (quietConfig config ||| 0x01) then pure true else pure false
                  else pure false
              else pure false
            else pure false
          else pure false
      else pure false
    else pure false
  else pure false

/-! ## The protocol -/

/-- A read of the status. -/
def isStatus : PortEvent → Bool
  | ⟨.inb port, _⟩ => port = 0x64
  | _ => false

/-- The access is allowed behind this status. -/
def Permits (status : BitVec 8) : PortEvent → Bool
  | ⟨.inb _, _⟩ => OutputFull status
  | ⟨.outb _ _, _⟩ => InputEmpty status

/-- What is said: everything but the status. -/
def talk (l : List PortEvent) : List PortEvent := l.filter fun e => !isStatus e

/-- **The handshake**: right before everything that is said, a status that allows it has been read. -/
def Handshake (l : List PortEvent) : Prop :=
  ∀ before e after, l = before ++ e :: after → isStatus e = false →
    ∃ p v, before = p ++ [⟨.inb 0x64, v⟩] ∧ Permits v e = true

def command (c : BitVec 8) : PortEvent := ⟨.outb 0x64 c, ()⟩

def data (d : BitVec 8) : PortEvent := ⟨.outb 0x60 d, ()⟩

def answer (d : BitVec 8) : PortEvent := ⟨.inb 0x60, d⟩

/-- What is said in an initialisation, if the controller drains the bytes `drained`, has the configuration `config`,
and the keyboard answers `response`. -/
def script (drained : List (BitVec 8)) (config response : BitVec 8) : List PortEvent :=
  [command 0xAD, command 0xA7] ++ drained.map answer ++
    [command 0x20, answer config, command 0x60, data (quietConfig config), command 0xAE, data 0xF4,
      answer response] ++
    if response = 0xFA then [command 0x60, data (quietConfig config ||| 0x01)] else []

variable {l l₁ l₂ : List PortEvent} {e : PortEvent}

@[simp] theorem talk_append : talk (l₁ ++ l₂) = talk l₁ ++ talk l₂ := List.filter_append ..

theorem Handshake.nil : Handshake [] := fun before _ _ h => absurd h.symm (by simp)

/-- A status may be read at any time. -/
theorem Handshake.status (v : BitVec 8) : Handshake [⟨.inb 0x64, v⟩] := by
  intro before e after h hstatus
  obtain ⟨rfl, rfl, rfl⟩ : before = [] ∧ e = ⟨.inb 0x64, v⟩ ∧ after = [] := by
    cases before with
    | nil => simpa [eq_comm] using h
    | cons x before => exact absurd (congrArg List.length h) (by simp)
  exact absurd hstatus (by simp [isStatus])

theorem Handshake.append (h₁ : Handshake l₁) (h₂ : Handshake l₂) : Handshake (l₁ ++ l₂) := by
  intro before e after heq he
  rcases List.append_eq_append_iff.mp heq with ⟨a, rfl, hl₂⟩ | ⟨a, hl₁, hafter⟩
  · obtain ⟨p, v, rfl, hv⟩ := h₂ a e after hl₂ he
    exact ⟨l₁ ++ p, v, (List.append_assoc ..).symm, hv⟩
  · cases a with
    | nil =>
      obtain ⟨p, v, hnil, -⟩ := h₂ [] e after (by simpa using hafter.symm) he
      exact absurd hnil (by simp)
    | cons x a =>
      rw [List.cons_append, List.cons.injEq] at hafter
      obtain ⟨rfl, rfl⟩ := hafter
      exact h₁ before e a hl₁ he

/-- An access right behind a status that allows it. -/
theorem Handshake.snoc (h : Handshake l) {v : BitVec 8} (hv : Permits v e = true) :
    Handshake (l ++ [⟨.inb 0x64, v⟩, e]) := by
  refine h.append fun before e' after heq he' => ?_
  match before with
  | [] =>
    obtain ⟨rfl, -⟩ := List.cons.inj heq
    exact absurd he' (by simp [isStatus])
  | [x] =>
    obtain ⟨rfl, hrest⟩ := List.cons.inj heq
    obtain ⟨rfl, -⟩ := List.cons.inj hrest
    exact ⟨[], v, rfl, hv⟩
  | x :: y :: before => exact absurd (congrArg List.length heq) (by simp)

/-! ## The waits -/

/-- A wait says nothing, and is good only with a status that is. -/
theorem waitStatus_runs {ready : BitVec 8 → Bool} {polls : Nat} {ok : Bool}
    (h : (waitStatus ready polls).Runs l ok) : talk l = [] ∧ Handshake l ∧
      (ok = true → ∃ p v, l = p ++ [⟨.inb 0x64, v⟩] ∧ Handshake p ∧ talk p = [] ∧ ready v = true) := by
  induction polls generalizing l with
  | zero =>
    obtain ⟨rfl, rfl⟩ := h
    exact ⟨rfl, .nil, nofun⟩
  | succ polls ih =>
    obtain ⟨v, l', rfl, h'⟩ := runs_inb_bind.mp h
    by_cases hready : ready v = true
    · rw [if_pos hready] at h'
      obtain ⟨rfl, rfl⟩ := h'
      exact ⟨rfl, .status v, fun _ => ⟨[], v, rfl, .nil, rfl, hready⟩⟩
    · rw [if_neg hready] at h'
      obtain ⟨htalk, hshake, hgood⟩ := ih h'
      refine ⟨htalk, Handshake.append (.status v) hshake, fun hok => ?_⟩
      obtain ⟨p, w, rfl, hp, htp, hw⟩ := hgood hok
      exact ⟨⟨.inb 0x64, v⟩ :: p, w, rfl, Handshake.append (.status v) hp, htp, hw⟩

theorem within_waitStatus (ready : BitVec 8 → Bool) (polls : Nat) : (waitStatus ready polls).Within polls := by
  induction polls with
  | zero => exact within_pure _
  | succ polls ih =>
    refine within_call_bind fun v => ?_
    split
    · exact within_pure _
    · exact ih

/-! ## Conversations -/

/-- A run says one of the conversations `C` and returns its result, or it says less and returns `false`. -/
def Converses (p : PortM Bool) (C : List PortEvent → Bool → Prop) : Prop :=
  (∃ c ok, C c ok) ∧ ∀ l ok, p.Runs l ok → Handshake l ∧
    ∃ c ok', C c ok' ∧ (talk l = c ∧ ok = ok' ∨ talk l <+: c ∧ talk l ≠ c ∧ ok = false)

/-- A program that says `e`, or nothing if it fails. -/
def Sends (w : PortM Bool) (e : PortEvent) : Prop :=
  ∀ l ok, w.Runs l ok → Handshake l ∧ talk l = if ok = true then [e] else []

theorem sends_outb {port : BitVec 16} {byte : BitVec 8} : Sends (do
    if ← ps2WaitInputEmpty then
      outb port byte
      pure true
    else pure false) ⟨.outb port byte, ()⟩ := by
  intro l ok h
  obtain ⟨l₁, ready, l₂, rfl, hwait, h₂⟩ := runs_bind.mp h
  obtain ⟨htalk, hshake, hgood⟩ := waitStatus_runs hwait
  cases ready with
  | false =>
    obtain ⟨rfl, rfl⟩ := h₂
    rw [List.append_nil]
    exact ⟨hshake, htalk⟩
  | true =>
    obtain ⟨⟨⟩, l', rfl, rfl, rfl⟩ := runs_outb_bind.mp h₂
    obtain ⟨p, v, rfl, hp, htp, hv⟩ := hgood rfl
    rw [List.append_assoc]
    refine ⟨hp.snoc hv, ?_⟩
    rw [talk_append, htp]
    rfl

theorem sends_command (c : BitVec 8) : Sends (ps2Command c) (command c) := sends_outb

theorem sends_data (d : BitVec 8) : Sends (ps2WriteData d) (data d) := sends_outb

variable {p : PortM Bool} {C : List PortEvent → Bool → Prop}

theorem converses_pure (ok : Bool) : Converses (pure ok) fun c ok' => c = [] ∧ ok' = ok := by
  refine ⟨⟨[], ok, rfl, rfl⟩, fun l ok' h => ?_⟩
  obtain ⟨rfl, rfl⟩ := h
  exact ⟨.nil, [], ok', ⟨rfl, rfl⟩, .inl ⟨rfl, rfl⟩⟩

/-- Something is sent, and the rest of the conversation follows. -/
theorem Converses.send {w : PortM Bool} (hw : Sends w e) (hp : Converses p C) :
    Converses (do if ← w then p else pure false) fun c ok => ∃ c', c = e :: c' ∧ C c' ok := by
  obtain ⟨⟨c₀, ok₀, hc₀⟩, hp⟩ := hp
  refine ⟨⟨e :: c₀, ok₀, c₀, rfl, hc₀⟩, fun l ok h => ?_⟩
  obtain ⟨l₁, sent, l₂, rfl, hsend, h₂⟩ := runs_bind.mp h
  obtain ⟨hshake, htalk⟩ := hw _ _ hsend
  cases sent with
  | false =>
    obtain ⟨rfl, rfl⟩ := h₂
    rw [List.append_nil]
    exact ⟨hshake, e :: c₀, ok₀, ⟨c₀, rfl, hc₀⟩, .inr ⟨by rw [htalk]; exact List.nil_prefix, by simp [htalk], rfl⟩⟩
  | true =>
    obtain ⟨hshake', c, ok', hc, hsaid⟩ := hp _ _ h₂
    refine ⟨hshake.append hshake', e :: c, ok', ⟨c, rfl, hc⟩, ?_⟩
    rw [talk_append, htalk, if_pos rfl, List.singleton_append]
    rcases hsaid with ⟨rfl, rfl⟩ | ⟨hpre, hne, rfl⟩
    · exact .inl ⟨rfl, rfl⟩
    · exact .inr ⟨List.cons_prefix_cons.mpr ⟨rfl, hpre⟩, fun h => hne (List.cons.inj h).2, rfl⟩

/-- A byte is read, and the rest of the conversation depends on it. -/
theorem converses_read {p : BitVec 8 → PortM Bool} {C : BitVec 8 → List PortEvent → Bool → Prop}
    (hp : ∀ d, Converses (p d) (C d)) :
    Converses (do
      match ← ps2ReadData with
      | none => pure false
      | some d => p d) fun c ok => ∃ d c', c = answer d :: c' ∧ C d c' ok := by
  obtain ⟨⟨c₀, ok₀, hc₀⟩, -⟩ := hp 0
  refine ⟨⟨answer 0 :: c₀, ok₀, 0, c₀, rfl, hc₀⟩, fun l ok h => ?_⟩
  obtain ⟨l₁, read, l₂, rfl, hread, h₂⟩ := runs_bind.mp h
  obtain ⟨l₃, ready, l₄, rfl, hwait, h₄⟩ := runs_bind.mp hread
  obtain ⟨htalk, hshake, hgood⟩ := waitStatus_runs hwait
  cases ready with
  | false =>
    obtain ⟨rfl, rfl⟩ := h₄
    obtain ⟨rfl, rfl⟩ := h₂
    rw [List.append_nil, List.append_nil]
    exact ⟨hshake, answer 0 :: c₀, ok₀, ⟨0, c₀, rfl, hc₀⟩,
      .inr ⟨by rw [htalk]; exact List.nil_prefix, by simp [htalk], rfl⟩⟩
  | true =>
    obtain ⟨d, l', rfl, rfl, rfl⟩ := runs_inb_bind.mp h₄
    obtain ⟨q, v, rfl, hq, htq, hv⟩ := hgood rfl
    obtain ⟨hshake', c, ok', hc, hsaid⟩ := (hp d).2 _ _ h₂
    have hlog : q ++ [⟨.inb 0x64, v⟩] ++ [⟨.inb 0x60, d⟩] ++ l₂ = q ++ [⟨.inb 0x64, v⟩, answer d] ++ l₂ := by
      simp [answer]
    have hsaid' : talk (q ++ [⟨.inb 0x64, v⟩, answer d] ++ l₂) = answer d :: talk l₂ := by
      rw [talk_append, talk_append, htq]
      rfl
    rw [hlog, hsaid']
    refine ⟨(hq.snoc (e := answer d) hv).append hshake', answer d :: c, ok', ⟨d, c, rfl, hc⟩, ?_⟩
    rcases hsaid with ⟨rfl, rfl⟩ | ⟨hpre, hne, rfl⟩
    · exact .inl ⟨rfl, rfl⟩
    · exact .inr ⟨List.cons_prefix_cons.mpr ⟨rfl, hpre⟩, fun h => hne (List.cons.inj h).2, rfl⟩

/-- What the drain reads. -/
theorem drain_runs {rounds : Nat} (h : (drain rounds).Runs l ()) :
    Handshake l ∧ ∃ drained : List (BitVec 8), drained.length ≤ rounds ∧ talk l = drained.map answer := by
  induction rounds generalizing l with
  | zero =>
    obtain ⟨rfl, -⟩ := h
    exact ⟨.nil, [], le_rfl, rfl⟩
  | succ rounds ih =>
    obtain ⟨v, l', rfl, h'⟩ := runs_inb_bind.mp h
    by_cases hfull : OutputFull v = true
    · rw [if_pos hfull] at h'
      obtain ⟨d, l'', rfl, h''⟩ := runs_inb_bind.mp h'
      obtain ⟨hshake, drained, hlen, htalk⟩ := ih h''
      refine ⟨(Handshake.nil.snoc (e := answer d) hfull).append hshake, d :: drained, Nat.succ_le_succ hlen, ?_⟩
      show answer d :: talk l'' = _
      rw [htalk]
      rfl
    · rw [if_neg hfull] at h'
      obtain ⟨rfl, -⟩ := h'
      exact ⟨.status v, [], Nat.zero_le _, rfl⟩

theorem Converses.drain {rounds : Nat} (hp : Converses p C) : Converses (do drain rounds; p) fun c ok =>
    ∃ (drained : List (BitVec 8)) (c' : List PortEvent), drained.length ≤ rounds ∧
      c = drained.map answer ++ c' ∧ C c' ok := by
  obtain ⟨⟨c₀, ok₀, hc₀⟩, hp⟩ := hp
  refine ⟨⟨c₀, ok₀, [], c₀, Nat.zero_le _, rfl, hc₀⟩, fun l ok h => ?_⟩
  obtain ⟨l₁, ⟨⟩, l₂, rfl, hdrain, h₂⟩ := runs_bind.mp h
  obtain ⟨hshake, drained, hlen, htalk⟩ := drain_runs hdrain
  obtain ⟨hshake', c, ok', hc, hsaid⟩ := hp _ _ h₂
  refine ⟨hshake.append hshake', drained.map answer ++ c, ok', ⟨drained, c, hlen, rfl, hc⟩, ?_⟩
  rw [talk_append, htalk]
  rcases hsaid with ⟨rfl, rfl⟩ | ⟨hpre, hne, rfl⟩
  · exact .inl ⟨rfl, rfl⟩
  · exact .inr ⟨List.prefix_append_right_inj _ |>.mpr hpre, fun h => hne (List.append_cancel_left h), rfl⟩

theorem ps2WriteConfig_bind (config : BitVec 8) : (do if ← ps2WriteConfig config then p else pure false) =
    (do if ← ps2Command 0x60 then (do if ← ps2WriteData config then p else pure false) else pure false) := by
  rw [ps2WriteConfig, bind_assoc]
  refine congrArg _ (funext fun ok => ?_)
  cases ok with
  | false => rfl
  | true => rfl

theorem Converses.mono {C' : List PortEvent → Bool → Prop} (hp : Converses p C) (h : ∀ c ok, C c ok → C' c ok) :
    Converses p C' := by
  obtain ⟨⟨c₀, ok₀, hc₀⟩, hp⟩ := hp
  refine ⟨⟨c₀, ok₀, h _ _ hc₀⟩, fun l ok hrun => ?_⟩
  obtain ⟨hshake, c, ok', hc, hsaid⟩ := hp l ok hrun
  exact ⟨hshake, c, ok', h _ _ hc, hsaid⟩

/-! ## The initialisation -/

/-- Behind the answer of the keyboard. -/
theorem converses_enable (config response : BitVec 8) : Converses
    (if response = 0xFA then
      do if ← ps2WriteConfig (quietConfig config ||| 0x01) then pure true else pure false
    else pure false) fun c ok =>
      c = (if response = 0xFA then [command 0x60, data (quietConfig config ||| 0x01)] else []) ∧
        ok = decide (response = 0xFA) := by
  by_cases hack : response = 0xFA
  · rw [if_pos hack, if_pos hack, ps2WriteConfig_bind, decide_eq_true hack]
    refine ((converses_pure true).send (sends_data _) |>.send (sends_command _)).mono fun c ok hc => ?_
    obtain ⟨_, rfl, _, rfl, rfl, rfl⟩ := hc
    exact ⟨rfl, rfl⟩
  · rw [if_neg hack, if_neg hack, decide_eq_false hack]
    exact converses_pure false

/-- The conversations of the initialisation. -/
theorem converses_init : Converses ps2ControllerInit fun c ok => ∃ drained config response,
    drained.length ≤ 32 ∧ c = script drained config response ∧ ok = decide (response = 0xFA) := by
  have hconfigured : ∀ config, Converses (do
      if ← ps2WriteConfig (quietConfig config) then
        if ← ps2Command 0xAE then
          if ← ps2WriteData 0xF4 then
            match ← ps2ReadData with
            | none => pure false
            | some response =>
              if response = 0xFA then
                if ← ps2WriteConfig (quietConfig config ||| 0x01) then pure true else pure false
              else pure false
          else pure false
        else pure false
      else pure false) _ := fun config => by
    rw [ps2WriteConfig_bind]
    exact ((((converses_read (converses_enable config)).send (sends_data _)).send (sends_command _)).send
      (sends_data _)).send (sends_command _)
  refine (((((converses_read hconfigured).send (sends_command _)).drain).send (sends_command _)).send
    (sends_command _)).mono fun c ok hc => ?_
  obtain ⟨_, rfl, _, rfl, drained, _, hlen, rfl, _, rfl, config, _, rfl, _, rfl, _, rfl, _, rfl, _, rfl, response, _,
    rfl, rfl, hok⟩ := hc
  exact ⟨drained, config, response, hlen, by simp [script], hok⟩

/-! ### It ends -/

theorem within_send {port : BitVec 16} {byte : BitVec 8} : (do
    if ← ps2WaitInputEmpty then
      outb port byte
      pure true
    else pure false).Within 100001 := by
  refine (within_waitStatus _ _).bind (m := 1) fun ready => ?_
  split
  · exact within_call_bind fun _ => within_pure _
  · exact within_pure _

theorem within_if {w : PortM Bool} {n m : Nat} (hw : w.Within n) (hp : p.Within m) :
    (do if ← w then p else pure false).Within (n + m) := by
  refine hw.bind fun ok => ?_
  split
  · exact hp
  · exact within_pure _

theorem within_read {p : BitVec 8 → PortM Bool} {m : Nat} (hp : ∀ d, (p d).Within m) : (do
    match ← ps2ReadData with
    | none => pure false
    | some d => p d).Within (100001 + m) := by
  have hread : ps2ReadData.Within 100001 := by
    refine (within_waitStatus _ _).bind (m := 1) fun ready => ?_
    split
    · exact within_call_bind fun _ => within_pure _
    · exact within_pure _
  refine hread.bind fun d => ?_
  cases d with
  | none => exact within_pure _
  | some d => exact hp d

theorem within_drain (rounds : Nat) : (drain rounds).Within (2 * rounds) := by
  induction rounds with
  | zero => exact within_pure _
  | succ rounds ih =>
    refine within_call_bind fun v => ?_
    split
    · exact within_call_bind fun _ => ih
    · exact within_pure _

theorem within_config (config : BitVec 8) : (ps2WriteConfig config).Within 200002 := within_if within_send within_send

theorem within_init : ps2ControllerInit.Within 1100075 := by
  refine within_if (m := 1000074) within_send (within_if (m := 900073) within_send ?_)
  refine (within_drain 32).bind (m := 900009) fun _ => within_if (m := 800008) within_send ?_
  refine within_read (m := 700007) fun config => within_if (m := 500005) (within_config _) ?_
  refine within_if (m := 400004) within_send (within_if (m := 300003) within_send ?_)
  refine within_read (m := 200002) fun response => ?_
  split
  · exact within_if (m := 0) (within_config _) (within_pure _)
  · exact within_pure _

/-- **The initialisation keeps to the protocol**, whatever the controller answers: it ends; before everything it says it
has read a status that allows it; it says the script or a beginning of it; and it succeeds exactly if the keyboard has
acknowledged and the script has come to its end, which is the byte that enables the interrupt. -/
theorem ps2ControllerInit_protocol {ok : Bool} (h : ps2ControllerInit.Runs l ok) :
    l.length ≤ 1100075 ∧ Handshake l ∧ ∃ drained config response, drained.length ≤ 32 ∧
      talk l <+: script drained config response ∧
      (ok = true ↔ response = 0xFA ∧ talk l = script drained config response) := by
  obtain ⟨hshake, c, ok', ⟨drained, config, response, hlen, rfl, rfl⟩, hsaid⟩ := converses_init.2 l ok h
  refine ⟨within_init.length_le h, hshake, drained, config, response, hlen, ?_, ?_⟩
  · rcases hsaid with ⟨hall, -⟩ | ⟨hpre, -, -⟩
    · rw [hall]
    · exact hpre
  · rcases hsaid with ⟨hall, rfl⟩ | ⟨-, hne, rfl⟩
    · simp [hall]
    · simp [hne]

/-- A controller with a keyboard; the state is the byte it has for the driver. -/
def controller : Handler PortOp PortAns (Option (BitVec 8))
  | .inb port, s => if port = 0x64 then (if s.isSome then 0x01 else 0, s) else (s.getD 0, none)
  | .outb port byte, s =>
    ((), if port = 0x64 ∧ byte = 0x20 then some 0x47 else if port = 0x60 ∧ byte = 0xF4 then some 0xFA else s)

/-- A byte is drained first, and the initialisation succeeds. -/
theorem ps2ControllerInit_protocol_controller :
    (run controller ps2ControllerInit (some 0x1C)).1 = true ∧
    (trace controller ps2ControllerInit (some 0x1C)).length ≤ 1100075 ∧
    Handshake (trace controller ps2ControllerInit (some 0x1C)) ∧ ∃ drained config response, drained.length ≤ 32 ∧
      talk (trace controller ps2ControllerInit (some 0x1C)) <+: script drained config response ∧
      ((run controller ps2ControllerInit (some 0x1C)).1 = true ↔ response = 0xFA ∧
        talk (trace controller ps2ControllerInit (some 0x1C)) = script drained config response) :=
  ⟨by decide +kernel, ps2ControllerInit_protocol (runs_trace controller _ _)⟩

end Ps2

end Dem64
