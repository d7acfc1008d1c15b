import HilBench.BootProtocol

/-! What the frames of the flasher carry. -/

namespace HilBench

open Effect PyText

namespace CanBoot

/-- What the frames of one command carry behind its byte. -/
def carried (cmd : BitVec 8) (ms : List CanMessage) : List (List (BitVec 8)) :=
  ms.filterMap fun m =>
    if m.arbitrationId = canBootRxId ∧ m.data.head? = some cmd then some m.data.tail else none

/-- The bytes that the `WRITE_DATA` frames carry, one after the other. -/
def dataBytes (ms : List CanMessage) : List (BitVec 8) := (carried blCmdWriteData ms).flatten

/-- The values that the frames of a command carry: four bytes, the lowest first. -/
def fieldValues (cmd : BitVec 8) (ms : List CanMessage) : List Nat :=
  (carried cmd ms).map fun payload => ByteField.little (payload.take 4)

/-- The bytes that fill the last frame. -/
def padding (fw : List (BitVec 8)) : List (BitVec 8) :=
  List.replicate (7 * ((fw.length + 6) / 7) - fw.length) 0xFF

/-- Frames that carry a whole image, with its length, CRC and version, and end with the jump. -/
structure Carries (fw : List (BitVec 8)) (version : Int) (ms : List CanMessage) : Prop where
  data : dataBytes ms = fw ++ padding fw
  size : fieldValues blCmdSetSize ms = [fw.length]
  crc : fieldValues blCmdSetCrc ms = [crc32 fw]
  version : 0 ≤ version ∧ fieldValues blCmdSetVersion ms = [version.toNat]
  jump : ms.getLast? = some (commandFrame blCmdJumpToApp)

theorem length_littleBytes (value : Nat) : (littleBytes value).length = 4 := by
  simp [littleBytes]

theorem little_littleBytes {value : Nat} (hvalue : value < 2 ^ 32) :
    ByteField.little (littleBytes value) = value := by
  simp only [littleBytes, List.range_succ, List.range_zero, List.nil_append, List.cons_append,
    List.map_cons, List.map_nil, ByteField.little, BitVec.toNat_ofNat]
  omega

theorem take_littleBytes (value : Nat) (rest : List (BitVec 8)) :
    (littleBytes value ++ rest).take 4 = littleBytes value := by
  rw [List.take_append_of_le_length (length_littleBytes value).ge,
    List.take_of_length_le (length_littleBytes value).le]

theorem little_field {value : Int} (hvalue : InRange value) :
    ByteField.little ((littleBytes value.toNat ++ [0, 0, 0]).take 4) = value.toNat := by
  obtain ⟨hlow, hhigh⟩ := hvalue
  rw [take_littleBytes, little_littleBytes]
  omega

theorem crc32_inRange (fw : List (BitVec 8)) : InRange (crc32 fw) := by
  have hlt : crc32 fw < 2 ^ 32 := BitVec.isLt _
  exact ⟨Int.natCast_nonneg _, by exact_mod_cast hlt⟩

/-- The chunks from one offset on are the image from there on, padded. -/
theorem chunks_from (fw : List (BitVec 8)) (count i : Nat)
    (hcount : count = (fw.length + 6) / 7 - i) :
    ((List.range' i count).flatMap fun i => chunkAt fw (7 * i)) =
      fw.drop (7 * i) ++ List.replicate (7 * (i + count) - max fw.length (7 * i)) 0xFF := by
  induction count generalizing i with
  | zero =>
    have hlen : fw.length ≤ 7 * i := by omega
    have hzero : 7 * (i + 0) - max fw.length (7 * i) = 0 := by omega
    rw [List.drop_eq_nil_of_le hlen, hzero]
    rfl
  | succ count ih =>
    rw [List.range'_succ, List.flatMap_cons, ih (i + 1) (by omega)]
    have hsplit : fw.drop (7 * i) = (fw.drop (7 * i)).take 7 ++ fw.drop (7 * (i + 1)) := by
      conv_lhs => rw [← List.take_append_drop 7 (fw.drop (7 * i)), List.drop_drop]
      rfl
    have hlen : ((fw.drop (7 * i)).take 7).length = min 7 (fw.length - 7 * i) := by simp
    rw [chunkAt, hlen]
    rcases Nat.lt_or_ge fw.length (7 * (i + 1)) with hlast | hmore
    · have hnil : fw.drop (7 * (i + 1)) = [] := List.drop_eq_nil_of_le hlast.le
      have hpad : 7 - min 7 (fw.length - 7 * i) +
          (7 * (i + 1 + count) - max fw.length (7 * (i + 1))) =
          7 * (i + (count + 1)) - max fw.length (7 * i) := by omega
      rw [hsplit, hnil, List.append_nil, List.nil_append, List.append_assoc,
        List.replicate_append_replicate, hpad, List.take_take, Nat.min_self]
    · have hpad : 7 - min 7 (fw.length - 7 * i) = 0 := by omega
      have hrest : 7 * (i + (count + 1)) - max fw.length (7 * i) =
          7 * (i + 1 + count) - max fw.length (7 * (i + 1)) := by omega
      rw [hpad, hrest, List.replicate_zero, List.append_nil, ← List.append_assoc, ← hsplit]

theorem chunks_eq (fw : List (BitVec 8)) :
    ((List.range ((fw.length + 6) / 7)).flatMap fun i => chunkAt fw (7 * i)) = fw ++ padding fw := by
  have hall := chunks_from fw ((fw.length + 6) / 7) 0 rfl
  rw [← List.range_eq_range'] at hall
  simpa [padding] using hall

/-! What is carried, frame by frame. -/

section
variable {cmd cmd' : BitVec 8} {ms ms' : List CanMessage}

theorem carried_append : carried cmd (ms ++ ms') = carried cmd ms ++ carried cmd ms' :=
  List.filterMap_append

theorem carried_cons {m : CanMessage} : carried cmd (m :: ms) = carried cmd [m] ++ carried cmd ms := by
  rw [← carried_append, List.singleton_append]

theorem carried_boot (payload : List (BitVec 8)) :
    carried cmd [bootFrame (cmd :: payload)] = [payload] := by
  simp [carried, bootFrame]

theorem carried_boot_ne (hcmd : cmd' ≠ cmd) (payload : List (BitVec 8)) :
    carried cmd [bootFrame (cmd' :: payload)] = [] := by
  simp [carried, bootFrame, hcmd]

theorem carried_knock {m : CanMessage} (hm : KnockFrame m) (hping : blCmdPing ≠ cmd)
    (hinfo : blCmdGetInfo ≠ cmd) : carried cmd [m] = [] := by
  rcases hm with rfl | rfl | rfl
  · exact carried_boot_ne hping _
  · have hid : appCtrlRxId ≠ canBootRxId := by decide
    simp [carried, enterFrame, hid]
  · exact carried_boot_ne hinfo _

theorem carried_flatMap : carried cmd ms = ms.flatMap fun m => carried cmd [m] := by
  induction ms with
  | nil => rfl
  | cons m ms ih => rw [carried_cons, ih, List.flatMap_cons]

theorem carried_knocks (hms : ∀ m ∈ ms, KnockFrame m) (hping : blCmdPing ≠ cmd)
    (hinfo : blCmdGetInfo ≠ cmd) : carried cmd ms = [] := by
  rw [carried_flatMap, List.flatMap_eq_nil_iff]
  exact fun m hm => carried_knock (hms m hm) hping hinfo

theorem carried_writes (fw : List (BitVec 8)) (is : List Nat) :
    carried blCmdWriteData (is.map fun i => writeFrame fw (7 * i)) =
      is.map fun i => chunkAt fw (7 * i) := by
  have hone (i : Nat) : carried blCmdWriteData [writeFrame fw (7 * i)] = [chunkAt fw (7 * i)] :=
    carried_boot _
  rw [carried_flatMap, List.flatMap_map, List.map_eq_flatMap]
  exact congrArg is.flatMap (funext hone)

theorem carried_writes_ne (hcmd : blCmdWriteData ≠ cmd) (fw : List (BitVec 8)) (is : List Nat) :
    carried cmd (is.map fun i => writeFrame fw (7 * i)) = [] := by
  rw [carried_flatMap, List.flatMap_eq_nil_iff]
  intro m hm
  obtain ⟨i, -, rfl⟩ := List.mem_map.mp hm
  exact carried_boot_ne hcmd _

theorem dataBytes_append : dataBytes (ms ++ ms') = dataBytes ms ++ dataBytes ms' := by
  rw [dataBytes, carried_append, List.flatten_append]
  rfl

theorem dataBytes_mono (h : ms <+: ms') : dataBytes ms <+: dataBytes ms' := by
  obtain ⟨rest, rfl⟩ := h
  rw [dataBytes_append]
  exact List.prefix_append _ _

theorem dataBytes_knocks (hms : ∀ m ∈ ms, KnockFrame m) : dataBytes ms = [] := by
  rw [dataBytes, carried_knocks hms (by decide) (by decide)]
  rfl

end

/-! The script. -/

section
variable {fw : List (BitVec 8)} {version : Int}

theorem dataBytes_script : dataBytes (script fw version) = fw ++ padding fw := by
  have hwrites : dataBytes (writeFrames fw) = fw ++ padding fw := by
    rw [← chunks_eq, dataBytes, writeFrames, carried_writes, List.flatMap_def]
  have hhead : dataBytes [eraseFrame, fieldFrame blCmdSetSize fw.length,
      fieldFrame blCmdSetCrc (crc32 fw), fieldFrame blCmdSetVersion version] = [] := rfl
  have htail : dataBytes [commandFrame blCmdWriteFinish, infoFrame,
      commandFrame blCmdJumpToApp] = [] := rfl
  rw [script, dataBytes_append, dataBytes_append, hwrites, hhead, htail, List.nil_append,
    List.append_nil]

/-- No command but `WRITE_DATA` has a frame among those of the image. -/
theorem fieldValues_script {cmd : BitVec 8} (hcmd : blCmdWriteData ≠ cmd) :
    fieldValues cmd (script fw version) =
      fieldValues cmd [eraseFrame, fieldFrame blCmdSetSize fw.length,
        fieldFrame blCmdSetCrc (crc32 fw), fieldFrame blCmdSetVersion version] ++
      fieldValues cmd [commandFrame blCmdWriteFinish, infoFrame, commandFrame blCmdJumpToApp] := by
  simp only [fieldValues, script, carried_append, writeFrames, carried_writes_ne hcmd,
    List.append_nil, List.map_append]

theorem carries_script (hsizes : Sizes fw version) : Carries fw version (script fw version) where
  data := dataBytes_script
  size := by
    have hsize := little_field hsizes.1
    rw [fieldValues_script (by decide)]
    exact congrArg (fun n => [n]) hsize
  crc := by
    have hcrc := little_field (crc32_inRange fw)
    rw [fieldValues_script (by decide)]
    exact congrArg (fun n => [n]) hcrc
  version := by
    have hversion := little_field hsizes.2
    rw [fieldValues_script (by decide)]
    exact ⟨hsizes.2.1, congrArg (fun n => [n]) hversion⟩
  jump := by
    rw [script, List.getLast?_append]
    rfl

theorem Carries.knocked {ms knocks : List CanMessage} (hms : Carries fw version ms)
    (hknocks : ∀ m ∈ knocks, KnockFrame m) : Carries fw version (knocks ++ ms) := by
  have hfields (cmd : BitVec 8) (hping : blCmdPing ≠ cmd) (hinfo : blCmdGetInfo ≠ cmd) :
      fieldValues cmd (knocks ++ ms) = fieldValues cmd ms := by
    rw [fieldValues, carried_append, carried_knocks hknocks hping hinfo]
    rfl
  refine ⟨?_, ?_, ?_, ⟨hms.version.1, ?_⟩, ?_⟩
  · rw [dataBytes_append, dataBytes_knocks hknocks, hms.data, List.nil_append]
  · rw [hfields blCmdSetSize (by decide) (by decide), hms.size]
  · rw [hfields blCmdSetCrc (by decide) (by decide), hms.crc]
  · rw [hfields blCmdSetVersion (by decide) (by decide), hms.version.2]
  · rw [List.getLast?_append, hms.jump]
    rfl

end

section
variable {σ : Type} {E : σ → (o : BootOp) → Except BootExn (BootAns o) → σ → Prop}
  {fuel : Nat} {s t : σ} {path channel : Text} {bitrate version : Int} {force : Bool}
  {tr : List (BootEvent σ)} {res : Except BootExn Bool} {fw : List (BitVec 8)}

/-- Frames that were sent by some moment, among them no erase, are knocks. -/
theorem Sent.knock_of_no_erase (sent : Sent fw version tr) {ms : List CanMessage}
    (hms : ms <+: wire.sends tr) (hno : eraseFrame ∉ ms) : ∀ m ∈ ms, KnockFrame m := by
  have hknocks : sent.knocks <+: wire.sends tr := ⟨sent.steps, sent.sends_eq.symm⟩
  rcases List.prefix_or_prefix_of_prefix hms hknocks with hbefore | ⟨steps, rfl⟩
  · exact fun m hm => sent.knock m (hbefore.subset hm)
  · rw [sent.sends_eq] at hms
    have hsteps : steps <+: sent.steps := (List.prefix_append_right_inj _).mp hms
    have hnil : steps = [] := by
      cases steps with
      | nil => rfl
      | cons m steps =>
        obtain ⟨rest, hrest⟩ := hsteps.trans sent.steps_prefix
        have hm : m = eraseFrame := (List.cons.inj hrest).1
        exact absurd (List.mem_append_right _ (hm ▸ List.mem_cons_self)) hno
    rw [hnil, List.append_nil]
    exact sent.knock

theorem Sent.data_prefix (sent : Sent fw version tr) {ms : List CanMessage}
    (hms : ms <+: wire.sends tr) : dataBytes ms <+: fw ++ padding fw := by
  have hall : dataBytes (wire.sends tr) <+: dataBytes (script fw version) := by
    rw [sent.sends_eq, dataBytes_append, dataBytes_knocks sent.knock, List.nil_append]
    exact dataBytes_mono sent.steps_prefix
  rw [dataBytes_script] at hall
  exact (dataBytes_mono hms).trans hall

theorem Sent.carries (sent : Sent fw version tr) (hall : sent.steps = script fw version)
    (hsizes : Sizes fw version) : Carries fw version (wire.sends tr) := by
  rw [sent.sends_eq, hall]
  exact (carries_script hsizes).knocked sent.knock

theorem Flashed.delivers (hflashed : Flashed path version force res tr) :
    ∃ fw, (wire.sends tr ≠ [] → fw ≠ [] ∧ ∃ e ∈ tr, e.Answers (.readFile path) fw) ∧
      (∀ pre, pre <+: tr →
        (eraseFrame ∉ wire.sends pre → ∀ m ∈ wire.sends pre, KnockFrame m) ∧
        dataBytes (wire.sends pre) <+: fw ++ padding fw) ∧
      (res = .ok true →
        (∀ m ∈ wire.sends tr, KnockFrame m) ∧ force = false ∧ SameVersion version tr ∨
        Carries fw version (wire.sends tr)) := by
  obtain ⟨fw, ⟨sent, hok⟩, hread⟩ := hflashed
  refine ⟨fw, fun hsent => ⟨(hread hsent).1, (hread hsent).2.1⟩, fun pre hpre => ?_, fun hres => ?_⟩
  · have hms : wire.sends pre <+: wire.sends tr := hpre.filterMap _
    exact ⟨sent.knock_of_no_erase hms, sent.data_prefix hms⟩
  · rcases hok hres with ⟨hdone, hsizes⟩ | ⟨hnone, hforce, hsame⟩
    · exact .inr (sent.carries hdone hsizes)
    · refine .inl ⟨fun m hm => sent.knock m ?_, hforce, hsame⟩
      rwa [sent.sends_eq, hnone, List.append_nil] at hm

/-- Whatever happens on the bus: at any moment before the erase only knocks have gone out, the
data that went out is a beginning of the image that was read, and where the flasher returns
`True` all of it has gone out, with its length, CRC and version, and the jump, unless nothing had
to be done. -/
theorem flash_delivers
    (hrun : Runs E (flash fuel path channel bitrate version force) s tr t res) :
    ∃ fw, (wire.sends tr ≠ [] → fw ≠ [] ∧ ∃ e ∈ tr, e.Answers (.readFile path) fw) ∧
      (∀ pre, pre <+: tr →
        (eraseFrame ∉ wire.sends pre → ∀ m ∈ wire.sends pre, KnockFrame m) ∧
        dataBytes (wire.sends pre) <+: fw ++ padding fw) ∧
      (res = .ok true →
        (∀ m ∈ wire.sends tr, KnockFrame m) ∧ force = false ∧ SameVersion version tr ∨
        Carries fw version (wire.sends tr)) :=
  (Flashed.of_run hrun).delivers

end

theorem flash_delivers_prompt : ∃ fw : List (BitVec 8),
    (wire.sends promptFlash.1 ≠ [] → fw ≠ [] ∧
      ∃ e ∈ promptFlash.1, e.Answers (.readFile []) fw) ∧
    (∀ pre, pre <+: promptFlash.1 →
      (eraseFrame ∉ wire.sends pre → ∀ m ∈ wire.sends pre, KnockFrame m) ∧
      dataBytes (wire.sends pre) <+: fw ++ padding fw) ∧
    (promptFlash.2.2 = .ok true →
      (∀ m ∈ wire.sends promptFlash.1, KnockFrame m) ∧ true = false ∧
        SameVersion 0x0100 promptFlash.1 ∨
      Carries fw 0x0100 (wire.sends promptFlash.1)) :=
  flash_delivers (Runs.exec (E := fun s o r s' => (r, s') = promptNode [1, 2, 3] s o)
    (fun _ _ => rfl) _ _)

end CanBoot

end HilBench
