import HilBench.CellState
import HilBench.FlashIsolation

/-! A test boots the AMS: its carrier is switched off, the inputs of the cockpit are pulled low,
and the carrier is switched on again until it draws current. -/

namespace HilBench

open Effect PyText Tca9555

namespace FreshBoot

/-- The keys of the profile that say where an input is wired. -/
structure PinKeys where
  addr : Option Int
  port : Option Int
  pin : Option Int

structure Wire where
  addr : Int
  port : Int
  pin : Int
  deriving DecidableEq, Repr

/-- A pin is wired when the profile has all of its keys. -/
def PinKeys.wire (k : PinKeys) : Option Wire :=
  k.addr.bind fun addr => k.port.bind fun port => k.pin.map fun pin => ⟨addr, port, pin⟩

structure AmsProfile (F : Type) where
  mlcSlot : MlcSlot
  mlcBootCurrentMA : PyNum F
  tsms : PinKeys
  dashChg : PinKeys

section
variable {F : Type}

def AmsProfile.wires (prof : AmsProfile F) : List Wire :=
  prof.tsms.wire.toList ++ prof.dashChg.wire.toList

/-- The pin of an input, where it is on this port. -/
def PinKeys.outPin (k : PinKeys) (addr port : Int) : Except FlashExn (List Int) :=
  if k.addr.getD (-1) = addr ∧ k.port.getD (-1) = port then
    match k.pin with
    | some pin => .ok [pin]
    | none => .error .keyError
  else .ok []

def outputMask (pins : List Int) : Byte :=
  pins.foldl (fun mask pin => withPin mask pin.toNat false) 0xFF

def combinedOutputMask (prof : AmsProfile F) (addr port : Int) : Except FlashExn Byte := do
  let tsms ← prof.tsms.outPin addr port
  let dashChg ← prof.dashChg.outPin addr port
  if (tsms ++ dashChg).any (· < 0) then throw .valueError
  return outputMask (tsms ++ dashChg)

variable [LinearOrder F] (P : Platform F) (prof : AmsProfile F)

open Flasher

def relay (on : Bool) : Flasher F Unit :=
  tcaCall "tca.write_pin".toList 0x20 fun addr => writePin addr 0 prof.mlcSlot.pin on

def milliamps : Flasher F (PyNum F) :=
  exceptException
    ((rpc "ina.current".toList (perform (.inaCurrent (inaForSlot prof.mlcSlot)))).bind
      fun current => .pure (current.map P.milli))
    (.pure (.num (P.ofInt 0)))

def drawsEnough : Nat → Flasher F Bool
  | 0 => .pure true
  | n + 1 => sleep.bind fun _ => (milliamps P prof).bind fun mA =>
    if mA.lt prof.mlcBootCurrentMA then .pure false else drawsEnough n

/-- `_robust_power_on`. What `pytest.fail` raises is no `Exception`. -/
def robustPowerOn : Nat → Flasher F Unit
  | 0 => .throw .baseException
  | n + 1 => (relay prof true).bind fun _ => (drawsEnough P prof 2).bind fun ok =>
    if ok then .pure ()
    else (relay prof false).bind fun _ => sleep.bind fun _ => robustPowerOn n

def dropWire (w : Wire) : Flasher F Unit :=
  (Prog.ofExcept (combinedOutputMask prof w.addr w.port)).bind fun mask =>
    (tcaCall "tca.set_direction".toList w.addr fun addr =>
      setDirection addr w.port mask.toNat).bind fun _ =>
        tcaCall "tca.write_pin".toList w.addr fun addr => writePin addr w.port w.pin false

def dropPin (k : PinKeys) : Flasher F Unit :=
  match k.wire with
  | some w => dropWire prof w
  | none => .pure ()

/-- `fresh_boot`, and `_boot_diff_core` likewise, up to the wait for telemetry. -/
def freshBoot : Flasher F Unit :=
  (perform .connect).bind fun _ => (relay prof false).bind fun _ =>
    (dropPin prof prof.tsms).bind fun _ => (dropPin prof prof.dashChg).bind fun _ =>
      sleep.bind fun _ => robustPowerOn P prof 4

end

/-! What is said about it. -/

section
variable {F : Type} (prof : AmsProfile F)

/-- Whether it is this pin of this expander. -/
def Wire.At (w : Wire) (addr : Nat) (port : Int) (pin : Nat) : Prop :=
  w.addr.toNat = addr ∧ (w.port = 0 ↔ port = 0) ∧ w.pin.toNat = pin

/-- The inputs are on ports that there are, and none of them is the relay of the carrier. -/
structure AmsProfile.Placed : Prop where
  ports : ∀ w ∈ prof.wires, w.port = 0 ∨ w.port = 1
  addrs : ∀ w ∈ prof.wires, 0 ≤ w.addr
  relay : ∀ w ∈ prof.wires, ¬ w.At 0x20 0 prof.mlcSlot.pin

/-- Whether it is on this port. -/
def Wire.On (w : Wire) (addr : Nat) (port : Int) : Prop :=
  w.addr.toNat = addr ∧ (w.port = 0 ↔ port = 0)

def Switched (x : Expanders) : Prop := ((x 0x20).out 0).getLsbD prof.mlcSlot.pin = true

/-- The pin of the relay is an output. -/
def RelayOut (x : Expanders) : Prop := ((x 0x20).cfg 0).getLsbD prof.mlcSlot.pin = false

def Powered (x : Expanders) : Prop := (x 0x20).Energised 0 prof.mlcSlot.pin

def Wire.Low (w : Wire) (x : Expanders) : Prop := (x w.addr.toNat).Dark w.port w.pin.toNat

def AllLow (x : Expanders) : Prop := ∀ w ∈ prof.wires, w.Low x

/-- A direction is left as it is, or it is on a port with an input, where the inputs are the only
outputs now. -/
def Redirects (x x' : Expanders) : Prop :=
  ∀ addr port pin, ((x' addr).cfg port).getLsbD pin = ((x addr).cfg port).getLsbD pin ∨
    (∃ w ∈ prof.wires, w.On addr port) ∧
      (((x' addr).cfg port).getLsbD pin = false ↔ ∃ w ∈ prof.wires, w.At addr port pin)

/-- No latch but that of the relay and those of the inputs is changed, and no direction but on the
ports of the inputs. -/
structure Spares (x x' : Expanders) : Prop where
  latch : ∀ addr port pin, ¬ (addr = 0x20 ∧ port = 0 ∧ pin = prof.mlcSlot.pin) →
    (∀ w ∈ prof.wires, ¬ w.At addr port pin) →
      ((x' addr).out port).getLsbD pin = ((x addr).out port).getLsbD pin
  direction : Redirects prof x x'

/-- No latch but those of the inputs is changed, and no direction but on their ports. -/
structure Leaves (x x' : Expanders) : Prop where
  latch : ∀ addr port pin, (∀ w ∈ prof.wires, ¬ w.At addr port pin) →
    ((x' addr).out port).getLsbD pin = ((x addr).out port).getLsbD pin
  direction : Redirects prof x x'

/-- The carrier gets power only when its inputs are low. -/
structure Clean (x x' : Expanders) : Prop where
  low : ¬ Powered prof x → Powered prof x' → AllLow prof x ∧ AllLow prof x'
  spares : Spares prof x x'

end

/-! Bits. -/

section
variable (x : Expanders) (addr addr' : Nat) (port port' : Int) (v : Byte)

theorem withPin_cleared (pin : Nat) : (withPin v pin false).getLsbD pin = false := by
  by_cases h : pin < 8
  · exact withPin_self v h false
  · exact BitVec.getLsbD_of_ge _ _ (by omega)

theorem withPin_low {v : Byte} {pin : Nat} (pin' : Nat) (h : v.getLsbD pin = false) :
    (withPin v pin' false).getLsbD pin = false := by
  by_cases hp : pin = pin'
  · subst hp
    exact withPin_cleared v pin
  · rw [withPin_other v hp false]
    exact h

theorem foldl_low {pins : List Int} {mask : Byte} {pin : Nat} :
    (pins.foldl (fun mask pin => withPin mask pin.toNat false) mask).getLsbD pin = false ↔
      pin ∈ pins.map Int.toNat ∨ mask.getLsbD pin = false := by
  induction pins generalizing mask with
  | nil => simp
  | cons p pins ih =>
    rw [List.foldl_cons, ih, List.map_cons, List.mem_cons]
    by_cases hp : pin = p.toNat
    · subst hp
      simp [withPin_cleared]
    · simp [withPin_other mask hp false, hp]

theorem put_config_out : (x.put addr (regConfig port) v addr').out port' = (x addr').out port' := by
  by_cases h : addr' = addr
  · subst h
    rw [put_self, write_config_out]
  · rw [put_other x h]

theorem put_config_cfg : (x.put addr (regConfig port) v addr').cfg port' =
    if addr' = addr ∧ (port' = 0 ↔ port = 0) then v else (x addr').cfg port' := by
  by_cases h : addr' = addr
  · subst h
    rw [put_self]
    by_cases h0 : port = 0 <;> by_cases h1 : port' = 0 <;>
      simp [regConfig, Expander.write, Expander.cfg, h0, h1]
  · simp [put_other x h, h]

theorem put_output_cfg : (x.put addr (regOutput port) v addr').cfg port' = (x addr').cfg port' := by
  by_cases h : addr' = addr
  · subst h
    rw [put_self, write_output_cfg]
  · rw [put_other x h]

theorem put_output_out : (x.put addr (regOutput port) v addr').out port' =
    if addr' = addr ∧ (port' = 0 ↔ port = 0) then v else (x addr').out port' := by
  by_cases h : addr' = addr
  · subst h
    rw [put_self]
    by_cases h0 : port = 0 <;> by_cases h1 : port' = 0 <;>
      simp [regOutput, Expander.write, Expander.out, h0, h1]
  · simp [put_other x h, h]

/-- A pin that is switched off, whatever the latches were. -/
theorem put_pin_low {pin : Nat} (pin' : Nat) (h : ((x addr').out port').getLsbD pin = false) :
    ((x.put addr (regOutput port) (withPin ((x addr).out port) pin' false) addr').out
      port').getLsbD pin = false := by
  rw [put_output_out]
  split
  · rename_i hs
    obtain ⟨rfl, hport⟩ := hs
    have hsame : (x addr').out port' = (x addr').out port := by
      by_cases h0 : port = 0 <;> simp [Expander.out, hport, h0]
    exact withPin_low pin' (hsame ▸ h)
  · exact h

end

/-! The wires. -/

section
variable {F : Type} {prof : AmsProfile F} {x x' : Expanders} {w w' : Wire}

theorem wire_keys {k : PinKeys} (hk : k.wire = some w) :
    k.addr = some w.addr ∧ k.port = some w.port ∧ k.pin = some w.pin := by
  obtain ⟨addr, port, pin⟩ := k
  cases addr <;> cases port <;> cases pin <;> simp [PinKeys.wire] at hk
  subst hk
  exact ⟨rfl, rfl, rfl⟩

theorem outPin_wire {k : PinKeys} (hk : k.wire = some w) :
    k.outPin w.addr w.port = .ok [w.pin] := by
  obtain ⟨haddr, hport, hpin⟩ := wire_keys hk
  simp [PinKeys.outPin, haddr, hport, hpin]

theorem mem_wires : w ∈ prof.wires ↔ prof.tsms.wire = some w ∨ prof.dashChg.wire = some w := by
  simp [AmsProfile.wires]

/-- The pins that a key gives for a port are those of its wire there. -/
theorem mem_outPin {k : PinKeys} {addr port : Int} {pins : List Int}
    (hk : k.outPin addr port = .ok pins) (haddr : 0 ≤ addr) (hport : 0 ≤ port) {pin : Int} :
    pin ∈ pins ↔ k.wire = some ⟨addr, port, pin⟩ := by
  obtain ⟨a, q, p⟩ := k
  unfold PinKeys.outPin at hk
  split at hk
  · rename_i hat
    cases a with
    | none => simp at hat; omega
    | some a =>
      cases q with
      | none => simp at hat; omega
      | some q =>
        cases p with
        | none => cases hk
        | some p =>
          obtain ⟨rfl, rfl⟩ : a = addr ∧ q = port := hat
          obtain rfl := Except.ok.inj hk
          simp [PinKeys.wire, eq_comm]
  · rename_i hat
    obtain rfl := Except.ok.inj hk
    refine ⟨fun hp => absurd hp List.not_mem_nil, fun hw => ?_⟩
    obtain ⟨ha, hq, -⟩ := wire_keys hw
    rw [ha, hq] at hat
    exact absurd ⟨rfl, rfl⟩ hat

/-- Whichever input is set up, the outputs of the port's mask are all the inputs that are on it. -/
theorem combinedOutputMask_clear {addr port : Int} {mask : Byte}
    (hm : combinedOutputMask prof addr port = .ok mask) (haddr : 0 ≤ addr) (hport : 0 ≤ port)
    {pin : Nat} (hpin : pin < 8) :
    mask.getLsbD pin = false ↔
      ∃ w ∈ prof.wires, w.addr = addr ∧ w.port = port ∧ w.pin.toNat = pin := by
  cases ht : prof.tsms.outPin addr port with
  | error x => simp [combinedOutputMask, ht, bind, Except.bind] at hm
  | ok tsms =>
    cases hd : prof.dashChg.outPin addr port with
    | error x => simp [combinedOutputMask, ht, hd, bind, Except.bind] at hm
    | ok dash =>
      simp only [combinedOutputMask, ht, hd, bind, Except.bind] at hm
      split at hm
      · cases hm
      · obtain rfl := Except.ok.inj hm
        have hfull : (0xFF : Byte).getLsbD pin = true := by
          interval_cases pin <;> decide
        have hmem (p : Int) : p ∈ tsms ++ dash ↔ (⟨addr, port, p⟩ : Wire) ∈ prof.wires := by
          rw [List.mem_append, mem_outPin ht haddr hport, mem_outPin hd haddr hport, mem_wires]
        rw [outputMask, foldl_low, hfull, List.mem_map]
        constructor
        · rintro (⟨p, hp, rfl⟩ | h)
          · exact ⟨_, (hmem p).mp hp, rfl, rfl, rfl⟩
          · cases h
        · rintro ⟨⟨a, q, p⟩, hw, rfl, rfl, rfl⟩
          exact .inl ⟨p, (hmem p).mpr hw, rfl⟩

theorem AmsProfile.Placed.same (hp : prof.Placed) (hw : w ∈ prof.wires) (hw' : w' ∈ prof.wires)
    (haddr : w'.addr.toNat = w.addr.toNat) (hport : w'.port = 0 ↔ w.port = 0) :
    w'.addr = w.addr ∧ w'.port = w.port := by
  have h0 := hp.addrs w hw
  have h0' := hp.addrs w' hw'
  have h1 := hp.ports w hw
  have h1' := hp.ports w' hw'
  omega

theorem combinedOutputMask_wire (hp : prof.Placed) {mask : Byte}
    (hm : combinedOutputMask prof w.addr w.port = .ok mask) (hw : w ∈ prof.wires) :
    mask.getLsbD w.pin.toNat = false := by
  have hport := hp.ports w hw
  by_cases h : w.pin.toNat < 8
  · exact (combinedOutputMask_clear hm (hp.addrs w hw) (by omega) h).mpr ⟨w, hw, rfl, rfl, rfl⟩
  · exact BitVec.getLsbD_of_ge _ _ (by omega)

theorem Redirects.of_cfg (h : ∀ addr port, (x' addr).cfg port = (x addr).cfg port) :
    Redirects prof x x' :=
  fun addr port pin => .inl (by rw [h])

theorem Spares.refl : Spares prof x x := ⟨fun _ _ _ _ _ => rfl, .of_cfg fun _ _ => rfl⟩

theorem Leaves.refl : Leaves prof x x := ⟨fun _ _ _ _ => rfl, .of_cfg fun _ _ => rfl⟩

theorem Leaves.spares (hl : Leaves prof x x') : Spares prof x x' :=
  ⟨fun addr port pin _ hwires => hl.latch addr port pin hwires, hl.direction⟩

theorem Clean.refl : Clean prof x x := ⟨fun hn hp => absurd hp hn, .refl⟩

theorem Powered.switched (h : Powered prof x) : Switched prof x := h.2

/-! The relay. -/

def relayPut (prof : AmsProfile F) (x : Expanders) (on : Bool) : Expanders :=
  x.put 0x20 (regOutput 0) (withPin ((x 0x20).out 0) prof.mlcSlot.pin on)

theorem relayPut_switched {on : Bool} : Switched prof (relayPut prof x on) ↔ on = true := by
  have hpin := FlashDut.pin_lt prof.mlcSlot
  rw [Switched, relayPut, put_output_out, if_pos ⟨rfl, Iff.rfl⟩, withPin_self _ (by omega)]

theorem relayPut_low (hp : prof.Placed) (hw : w ∈ prof.wires) (on : Bool) :
    w.Low (relayPut prof x on) ↔ w.Low x := by
  rw [Wire.Low, Wire.Low, Expander.Dark, Expander.Dark, relayPut, put_output_cfg, put_output_out]
  split
  · rename_i hs
    have hport : w.port = 0 := hs.2.mpr rfl
    have hne : w.pin.toNat ≠ prof.mlcSlot.pin := fun h => hp.relay w hw ⟨hs.1, hs.2, h⟩
    rw [withPin_other _ hne, hs.1, hport]
  · exact Iff.rfl

theorem relayPut_clean (hp : prof.Placed) {on : Bool} (hlow : on = true → AllLow prof x) :
    Clean prof x (relayPut prof x on) := by
  refine ⟨fun _ hpow => ?_, fun addr port pin hrelay _ => ?_, .of_cfg fun addr port => ?_⟩
  · have hx := hlow (relayPut_switched.mp hpow.switched)
    exact ⟨hx, fun w hw => (relayPut_low hp hw on).mpr (hx w hw)⟩
  · rw [relayPut, put_output_out]
    split
    · rename_i hs
      have hport : port = 0 := hs.2.mpr rfl
      have hne : pin ≠ prof.mlcSlot.pin := fun h => hrelay ⟨hs.1, hport, h⟩
      rw [withPin_other _ hne, hs.1, hport]
    · rfl
  · rw [relayPut, put_output_cfg]

theorem relayPut_out {on : Bool} : RelayOut prof (relayPut prof x on) ↔ RelayOut prof x := by
  rw [RelayOut, RelayOut, relayPut, put_output_cfg]

/-! An input. -/

def configPut (x : Expanders) (w : Wire) (mask : Byte) : Expanders :=
  x.put w.addr.toNat (regConfig w.port) mask

def drivePut (x : Expanders) (w : Wire) (value : Bool) : Expanders :=
  x.put w.addr.toNat (regOutput w.port)
    (withPin ((x w.addr.toNat).out w.port) w.pin.toNat value)

theorem Clean.of_off (hx' : ¬ Switched prof x') (hl : Leaves prof x x') : Clean prof x x' :=
  ⟨fun _ hpow => absurd hpow.switched hx', hl.spares⟩

theorem configPut_switched {mask : Byte} :
    Switched prof (configPut x w mask) ↔ Switched prof x := by
  rw [Switched, Switched, configPut, put_config_out]

theorem configPut_leaves (hp : prof.Placed) (hw : w ∈ prof.wires) {mask : Byte}
    (hm : combinedOutputMask prof w.addr w.port = .ok mask) :
    Leaves prof x (configPut x w mask) := by
  refine ⟨fun _ _ _ _ => by rw [configPut, put_config_out], fun addr port pin => ?_⟩
  rw [configPut, put_config_cfg]
  split
  · rename_i hs
    have hon : w.On addr port := ⟨hs.1.symm, hs.2.symm⟩
    by_cases hpin : pin < 8
    · have hport := hp.ports w hw
      refine .inr ⟨⟨w, hw, hon⟩, ?_⟩
      rw [combinedOutputMask_clear hm (hp.addrs w hw) (by omega) hpin]
      refine exists_congr fun w' => and_congr_right fun hw' => ?_
      constructor
      · rintro ⟨haddr, hport', hpin'⟩
        exact ⟨haddr ▸ hon.1, hport' ▸ hon.2, hpin'⟩
      · rintro ⟨haddr, hport', hpin'⟩
        obtain ⟨ha, hq⟩ := hp.same hw hw' (haddr.trans hon.1.symm) (hport'.trans hon.2.symm)
        exact ⟨ha, hq, hpin'⟩
    · rw [BitVec.getLsbD_of_ge _ _ (by omega), BitVec.getLsbD_of_ge _ _ (by omega)]
      exact .inl rfl
  · exact .inl rfl

theorem configPut_low (hp : prof.Placed) {mask : Byte}
    (hm : combinedOutputMask prof w.addr w.port = .ok mask) (hw : w ∈ prof.wires)
    (hw' : w' ∈ prof.wires) (hlow : w'.Low x) : w'.Low (configPut x w mask) := by
  refine ⟨?_, ?_⟩
  · rw [configPut, put_config_cfg]
    split
    · rename_i hs
      obtain ⟨haddr, hport⟩ := hp.same hw hw' hs.1 hs.2
      rw [← haddr, ← hport] at hm
      exact combinedOutputMask_wire hp hm hw'
    · exact hlow.1
  · rw [configPut, put_config_out]
    exact hlow.2

theorem drivePut_off (hx : ¬ Switched prof x) : ¬ Switched prof (drivePut x w false) := by
  have hoff : ((x 0x20).out 0).getLsbD prof.mlcSlot.pin = false := by simpa [Switched] using hx
  have hput := put_pin_low x w.addr.toNat 0x20 w.port 0 w.pin.toNat hoff
  rw [Switched, drivePut, hput]
  exact Bool.false_ne_true

theorem drivePut_leaves (hw : w ∈ prof.wires) (value : Bool) :
    Leaves prof x (drivePut x w value) := by
  refine ⟨fun addr port pin hwires => ?_, .of_cfg fun addr port => by rw [drivePut, put_output_cfg]⟩
  rw [drivePut, put_output_out]
  split
  · rename_i hs
    have hne : pin ≠ w.pin.toNat := fun h => hwires w hw ⟨hs.1.symm, hs.2.symm, h.symm⟩
    have hsame : (x addr).out port = (x addr).out w.port := by
      by_cases h0 : w.port = 0 <;> simp [Expander.out, hs.2, h0]
    rw [withPin_other _ hne, ← hs.1, hsame]
  · rfl

theorem drivePut_low (hlow : w'.Low x) : w'.Low (drivePut x w false) :=
  ⟨by rw [drivePut, put_output_cfg]; exact hlow.1, put_pin_low x _ _ _ _ _ hlow.2⟩

theorem drivePut_self {mask : Byte} (hmask : mask.getLsbD w.pin.toNat = false) :
    w.Low (drivePut (configPut x w mask) w false) := by
  refine ⟨?_, ?_⟩
  · rw [drivePut, put_output_cfg, configPut, put_config_cfg, if_pos ⟨rfl, Iff.rfl⟩]
    exact hmask
  · rw [drivePut, put_output_out, if_pos ⟨rfl, Iff.rfl⟩]
    exact withPin_cleared _ _

/-- An input that has been set up: what was low still is, and it is low itself. -/
inductive Dropped (prof : AmsProfile F) (x : Expanders) (w : Wire) : Expanders → Prop
  | intro {mask} (hm : combinedOutputMask prof w.addr w.port = .ok mask) :
    Dropped prof x w (drivePut (configPut x w mask) w false)

theorem Dropped.off (hd : Dropped prof x w x') (hx : ¬ Switched prof x) : ¬ Switched prof x' := by
  cases hd with
  | intro hm => exact drivePut_off fun h => hx (configPut_switched.mp h)

theorem Dropped.low (hd : Dropped prof x w x') (hp : prof.Placed) (hw : w ∈ prof.wires) :
    w.Low x' := by
  cases hd with
  | intro hm => exact drivePut_self (combinedOutputMask_wire hp hm hw)

/-- On the port of an input the relay, which is none, becomes an input itself. -/
theorem Dropped.relayOut (hd : Dropped prof x w x') (hp : prof.Placed) (hw : w ∈ prof.wires) :
    RelayOut prof x' ↔ RelayOut prof x ∧ ¬ w.On 0x20 0 := by
  cases hd with
  | @intro mask hm =>
    rw [RelayOut, RelayOut, drivePut, put_output_cfg, configPut, put_config_cfg]
    split
    · rename_i hs
      have hon : w.On 0x20 0 := ⟨hs.1.symm, hs.2.symm⟩
      have hport := hp.ports w hw
      have hpin := FlashDut.pin_lt prof.mlcSlot
      refine ⟨fun h => ?_, fun h => absurd hon h.2⟩
      obtain ⟨w', hw', ha, hq, hpin'⟩ :=
        (combinedOutputMask_clear hm (hp.addrs w hw) (by omega) (by omega)).mp h
      exact absurd ⟨ha ▸ hon.1, hq ▸ hon.2, hpin'⟩ (hp.relay w' hw')
    · rename_i hs
      exact (and_iff_left fun hon => hs ⟨hon.1.symm, hon.2.symm⟩).symm

theorem Dropped.keeps (hd : Dropped prof x w x') (hp : prof.Placed) (hw : w ∈ prof.wires)
    (hw' : w' ∈ prof.wires) (hlow : w'.Low x) : w'.Low x' := by
  cases hd with
  | intro hm => exact drivePut_low (configPut_low hp hm hw hw' hlow)

end

/-! The run. -/

section
variable {F : Type} {P : Platform F} {prof : AmsProfile F}
  {L : Expander → Byte × Byte → Prop} {x : Expanders} {h : List (FlashEvent F)} {w : Wire}

/-- Where the run goes on, the registers satisfy `R`. -/
abbrev Goes {α : Type} (R : Expanders → Prop) :
    Except FlashExn α → List (FlashEvent F) → Expanders → Prop :=
  Ends (fun _ _ s => R s) fun _ _ => True

section
variable {T : Expanders → Expanders → Prop} {R : Expanders → Prop} (hT : ∀ s, T s s)

include hT

theorem meets_access {α : Type} {method : Text} {addr : Int} {m : Nat → Driver FlashExn α}
    (hm : Meets (BusStep L) (fun _ e => T e.before e.after) (m addr.toNat)
      (Ends (fun _ _ s => R s) fun _ _ => True) [] x) :
    Meets (FlashStep L) (fun _ e => T e.before e.after) (Flasher.tcaCall method addr m)
      (Goes R) h x := by
  refine (meets_tcaCall (I := fun _ => True) (X := fun _ => True) (R := fun _ s => R s)
    (T := fun s _ s' => T s s') trivial trivial ?_ ?_ (fun _ _ _ => trivial) hm).mono ?_
  · exact fun _ _ _ _ _ _ _ => ⟨hT _, trivial⟩
  · exact fun _ _ _ _ _ _ hs => ⟨hs, trivial⟩
  · intro r h s hr
    cases r with
    | ok a => exact hr.2
    | error e => trivial

theorem meets_pin {method : Text} {addr port : Int} {pin : Nat} {on : Bool}
    (hput : T x (x.put addr.toNat (regOutput port) (withPin ((x addr.toNat).out port) pin on)))
    (hR : R (x.put addr.toNat (regOutput port) (withPin ((x addr.toNat).out port) pin on))) :
    Meets (FlashStep L) (fun _ e => T e.before e.after)
      (Flasher.tcaCall method addr fun addr => writePin addr port pin on) (Goes R) h x :=
  meets_access hT (meets_writePin (T := fun s _ s' => T s s') (R := fun _ s => R s)
    (X := fun _ => True) (fun _ => hT x) hput hR trivial trivial)

theorem meets_still {α : Type} {p : Flasher F α} (hp : p.Only FlashOp.Quiet) :
    Meets (FlashStep L) (fun _ e => T e.before e.after) p (Goes fun s => s = x) h x := by
  refine (Meets.of_only (I := fun _ s => s = x) hp rfl ?_).mono ?_
  · rintro h s o r s' ho rfl hstep
    obtain rfl := hstep.quiet ho
    exact ⟨hT _, rfl⟩
  · intro r h s hr
    cases r with
    | ok a => exact hr
    | error e => trivial

/-- The mask is written, and then the pin is pulled low. -/
theorem meets_dropWire (hconfig : ∀ mask, combinedOutputMask prof w.addr w.port = .ok mask →
      T x (configPut x w mask))
    (hlow : ∀ mask, T (configPut x w mask) (drivePut (configPut x w mask) w false)) :
    Meets (FlashStep L) (fun _ e => T e.before e.after) (dropWire prof w)
      (Goes (Dropped prof x w)) h x := by
  unfold dropWire
  cases hm : combinedOutputMask prof w.addr w.port with
  | error e => trivial
  | ok mask =>
    have hmask : BitVec.ofInt 8 (mask.toNat : Int) = mask := ofInt_toNat mask
    have hwrite : Meets (FlashStep L) (fun _ e => T e.before e.after)
        (Flasher.tcaCall "tca.set_direction".toList w.addr fun addr =>
          setDirection addr w.port mask.toNat) (Goes fun s => s = configPut x w mask) h x := by
      refine meets_access hT (meets_write (T := fun s _ s' => T s s')
        (R := fun _ s => s = configPut x w mask) (X := fun _ => True) (hT x) ?_ ?_ trivial trivial)
      · rw [hmask]
        exact hconfig mask hm
      · rw [hmask]
        rfl
    refine hwrite.seq ?_ fun _ _ _ _ => trivial
    rintro _ h s rfl
    by_cases hpin : w.pin < 0
    · have hread : Meets (BusStep L) (fun _ e => T e.before e.after)
          (read w.addr.toNat (regOutput w.port) : Driver FlashExn Byte)
          (Ends (fun _ _ _ => True) fun _ _ => True) [] (configPut x w mask) :=
        meets_read (T := fun s _ s' => T s s') (R := fun _ _ => True) (X := fun _ => True)
          (hT _) (fun _ _ => trivial) trivial
      refine meets_access hT (hread.seq ?_ fun _ _ _ _ => trivial)
      intro current h s _
      rw [if_pos hpin]
      trivial
    · have hnat : (w.pin.toNat : Int) = w.pin := Int.toNat_of_nonneg (by omega)
      rw [← hnat]
      exact meets_pin hT (hlow mask) (.intro hm)

end

theorem meets_relay (hp : prof.Placed) {on : Bool} (hlow : on = true → AllLow prof x) :
    Meets (FlashStep L) (fun _ e => Clean prof e.before e.after) (relay prof on)
      (Goes fun s => s = relayPut prof x on) h x :=
  meets_pin (fun _ => .refl) (relayPut_clean hp hlow) rfl

theorem meets_dropPin (hp : prof.Placed) {k : PinKeys}
    (hk : ∀ w, k.wire = some w → w ∈ prof.wires) (hx : ¬ Switched prof x) :
    Meets (FlashStep L) (fun _ e => Clean prof e.before e.after) (dropPin prof k)
      (Goes fun s => (k.wire = none ∧ s = x) ∨ ∃ w, k.wire = some w ∧ Dropped prof x w s) h x := by
  unfold dropPin
  cases hwire : k.wire with
  | none => exact .inl ⟨rfl, rfl⟩
  | some w =>
    have hoff (mask : Byte) : ¬ Switched prof (configPut x w mask) :=
      fun h => hx (configPut_switched.mp h)
    refine (meets_dropWire (fun _ => .refl)
      (fun mask hm => .of_off (hoff mask) (configPut_leaves hp (hk w hwire) hm))
      fun mask => .of_off (drivePut_off (hoff mask)) (drivePut_leaves (hk w hwire) false)).mono ?_
    intro r h s hr
    cases r with
    | error e => trivial
    | ok u => exact .inr ⟨w, rfl, hr⟩

theorem only_sleep : (Flasher.sleep (F := F)).Only FlashOp.Quiet := Prog.Only.call trivial

theorem only_connect : (Flasher.perform .connect : Flasher F Unit).Only FlashOp.Quiet :=
  Prog.Only.call trivial

theorem only_milliamps : (milliamps P prof).Only FlashOp.Quiet := by
  refine only_exceptException (Prog.Only.bind ?_ fun _ => trivial) trivial
  exact only_rpc trivial trivial (Prog.Only.call trivial)

/-- Both inputs have been set up, one after the other. -/
theorem allLow_of_dropped {y z : Expanders} (hp : prof.Placed)
    (htsms : (prof.tsms.wire = none ∧ y = x) ∨
      ∃ w, prof.tsms.wire = some w ∧ Dropped prof x w y)
    (hdash : (prof.dashChg.wire = none ∧ z = y) ∨
      ∃ w, prof.dashChg.wire = some w ∧ Dropped prof y w z) : AllLow prof z := by
  have hfirst : ∀ w, prof.tsms.wire = some w → w.Low y := by
    intro w hw
    rcases htsms with ⟨hnone, -⟩ | ⟨w', hw', hd⟩
    · rw [hnone] at hw
      cases hw
    · obtain rfl := Option.some.inj (hw'.symm.trans hw)
      exact hd.low hp (mem_wires.mpr (.inl hw))
  intro w hw
  rcases hdash with ⟨hnone, rfl⟩ | ⟨w', hw', hd⟩
  · rcases mem_wires.mp hw with hk | hk
    · exact hfirst w hk
    · rw [hnone] at hk
      cases hk
  · have hmem := mem_wires.mpr (.inr hw')
    rcases mem_wires.mp hw with hk | hk
    · exact hd.keeps hp hmem hw (hfirst w hk)
    · obtain rfl := Option.some.inj (hw'.symm.trans hk)
      exact hd.low hp hmem

/-- No input is on the port of the relay. -/
def AmsProfile.RelayApart (prof : AmsProfile F) : Prop := ∀ w ∈ prof.wires, ¬ w.On 0x20 0

theorem relayOut_of_dropped {y z : Expanders} (hp : prof.Placed)
    (htsms : (prof.tsms.wire = none ∧ y = x) ∨
      ∃ w, prof.tsms.wire = some w ∧ Dropped prof x w y)
    (hdash : (prof.dashChg.wire = none ∧ z = y) ∨
      ∃ w, prof.dashChg.wire = some w ∧ Dropped prof y w z) :
    RelayOut prof z ↔ RelayOut prof x ∧ prof.RelayApart := by
  have hone : ∀ {k : PinKeys} {x y : Expanders}, (∀ w, k.wire = some w → w ∈ prof.wires) →
      ((k.wire = none ∧ y = x) ∨ ∃ w, k.wire = some w ∧ Dropped prof x w y) →
        (RelayOut prof y ↔ RelayOut prof x ∧ ∀ w, k.wire = some w → ¬ w.On 0x20 0) := by
    rintro k x y hk (⟨hnone, rfl⟩ | ⟨w, hw, hd⟩)
    · simp [hnone]
    · rw [hd.relayOut hp (hk w hw)]
      simp [hw]
  rw [hone (fun w hw => mem_wires.mpr (.inr hw)) hdash,
    hone (fun w hw => mem_wires.mpr (.inl hw)) htsms, and_assoc, AmsProfile.RelayApart]
  refine and_congr_right fun _ => ?_
  constructor
  · rintro ⟨ht, hd⟩ w hw
    exact (mem_wires.mp hw).elim (ht w) (hd w)
  · exact fun h => ⟨fun w hw => h w (mem_wires.mpr (.inl hw)), fun w hw => h w (mem_wires.mpr (.inr hw))⟩

variable [LinearOrder F]

theorem only_drawsEnough (n : Nat) : (drawsEnough P prof n).Only FlashOp.Quiet := by
  induction n with
  | zero => trivial
  | succ n ih =>
    refine only_sleep.bind fun _ => only_milliamps.bind fun mA => ?_
    split
    · trivial
    · exact ih

theorem meets_robustPowerOn (hp : prof.Placed) (n : Nat) (hlow : AllLow prof x) :
    Meets (FlashStep L) (fun _ e => Clean prof e.before e.after) (robustPowerOn P prof n)
      (Goes fun s => AllLow prof s ∧ Switched prof s ∧ (RelayOut prof s ↔ RelayOut prof x)) h x := by
  induction n generalizing x h with
  | zero => trivial
  | succ n ih =>
    refine (meets_relay hp fun _ => hlow).seq ?_ fun _ _ _ _ => trivial
    rintro _ h s rfl
    have hlow' : AllLow prof (relayPut prof x true) :=
      fun w hw => (relayPut_low hp hw true).mpr (hlow w hw)
    refine (meets_still (fun _ => .refl) (only_drawsEnough 2)).seq ?_ fun _ _ _ _ => trivial
    rintro ok h s rfl
    split
    · exact ⟨hlow', relayPut_switched.mpr rfl, relayPut_out⟩
    · refine (meets_relay hp (by simp)).seq ?_ fun _ _ _ _ => trivial
      rintro _ h s rfl
      refine (meets_still (fun _ => .refl) only_sleep).seq ?_ fun _ _ _ _ => trivial
      rintro _ h s rfl
      have hrest := ih (h := h) fun w hw => (relayPut_low hp hw false).mpr (hlow' w hw)
      rwa [relayPut_out, relayPut_out] at hrest

theorem meets_freshBoot (hp : prof.Placed) :
    Meets (FlashStep L) (fun _ e => Clean prof e.before e.after) (freshBoot P prof)
      (Goes fun s => AllLow prof s ∧ Switched prof s ∧
        (RelayOut prof s ↔ RelayOut prof x ∧ prof.RelayApart)) h x := by
  refine (meets_still (fun _ => .refl) only_connect).seq ?_ fun _ _ _ _ => trivial
  intro _ h s hs
  rw [hs]
  refine (meets_relay hp (by simp)).seq ?_ fun _ _ _ _ => trivial
  rintro _ h s rfl
  have hoff : ¬ Switched prof (relayPut prof x false) := by simp [relayPut_switched]
  refine (meets_dropPin hp (fun w hw => mem_wires.mpr (.inl hw)) hoff).seq ?_ fun _ _ _ _ => trivial
  intro _ h y htsms
  have hoff' : ¬ Switched prof y := by
    rcases htsms with ⟨-, rfl⟩ | ⟨w, -, hd⟩
    · exact hoff
    · exact hd.off hoff
  refine (meets_dropPin hp (fun w hw => mem_wires.mpr (.inr hw)) hoff').seq ?_
    fun _ _ _ _ => trivial
  intro _ h z hdash
  refine (meets_still (fun _ => .refl) only_sleep).seq ?_ fun _ _ _ _ => trivial
  rintro _ h s rfl
  have hon := meets_robustPowerOn (P := P) (L := L) (h := h) hp 4 (allLow_of_dropped hp htsms hdash)
  rwa [relayOut_of_dropped hp htsms hdash, relayPut_out] at hon

/-- Whatever fails, the carrier is never given power while an input of the cockpit is high, and no
other pin is driven. A boot that succeeds leaves the inputs low and the relay switched on, which
gives the carrier power if the relay was an output and is not on the port of an input. -/
theorem fresh_boot_clean (hp : prof.Placed) {tr : List (FlashEvent F)} {y : Expanders}
    {res : Except FlashExn Unit} (hrun : Runs (FlashStep L) (freshBoot P prof) x tr y res) :
    (∀ e ∈ tr, ¬ Powered prof e.before → Powered prof e.after →
      AllLow prof e.before ∧ AllLow prof e.after) ∧
    (∀ e ∈ tr, Spares prof e.before e.after) ∧
    (res = .ok () → AllLow prof y ∧ Switched prof y ∧
      (Powered prof y ↔ RelayOut prof x ∧ prof.RelayApart)) := by
  obtain ⟨hend, hsafe⟩ := (meets_freshBoot (h := []) hp).sound hrun
  have hclean : ∀ e ∈ tr, Clean prof e.before e.after := by
    intro e he
    obtain ⟨pre, post, rfl⟩ := List.append_of_mem he
    exact hsafe pre e post rfl
  refine ⟨fun e he => (hclean e he).low, fun e he => (hclean e he).spares, ?_⟩
  rintro rfl
  obtain ⟨hlow, hon, hout⟩ := hend
  have hpower : Powered prof y ↔ RelayOut prof y := and_iff_left hon
  exact ⟨hlow, hon, hpower.trans hout⟩

end

theorem second_slot : 1 ≤ 2 ∧ 2 ≤ 4 := by decide

/-- Both inputs are on the second port of one expander. -/
def cockpit : AmsProfile Int where
  mlcSlot := ⟨2, second_slot⟩
  mlcBootCurrentMA := .num 50
  tsms := ⟨some 0x21, some 1, some 0⟩
  dashChg := ⟨some 0x21, some 1, some 1⟩

theorem cockpit_placed : cockpit.Placed := by
  have hwires : cockpit.wires = [⟨0x21, 1, 0⟩, ⟨0x21, 1, 1⟩] := rfl
  constructor <;> simp [hwires, Wire.At]

/-- The relays are outputs, as `mlc_powered` leaves them. -/
def relaysOut : Expanders := powerOn.put 0x20 (regConfig 0) 0x00

def cockpitBoot : List (FlashEvent Int) × Expanders × Except FlashExn Unit :=
  (freshBoot wholePlatform cockpit).exec healthy relaysOut

theorem fresh_boot_clean_cockpit : Powered cockpit cockpitBoot.2.1 ∧
    (∀ e ∈ cockpitBoot.1, ¬ Powered cockpit e.before → Powered cockpit e.after →
      AllLow cockpit e.before ∧ AllLow cockpit e.after) ∧
    (∀ e ∈ cockpitBoot.1, Spares cockpit e.before e.after) ∧
    (cockpitBoot.2.2 = .ok () → AllLow cockpit cockpitBoot.2.1 ∧ Switched cockpit cockpitBoot.2.1 ∧
      (Powered cockpit cockpitBoot.2.1 ↔ RelayOut cockpit relaysOut ∧ cockpit.RelayApart)) :=
  ⟨⟨rfl, rfl⟩, fresh_boot_clean cockpit_placed
    (Runs.exec healthy_step (freshBoot wholePlatform cockpit) relaysOut)⟩

example : cockpitBoot.2.2 = .ok () := rfl

end FreshBoot

end HilBench
