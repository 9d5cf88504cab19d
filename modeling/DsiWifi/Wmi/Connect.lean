import DsiWifi.Lib.Octets
import DsiWifi.Wmi.Commands

/-!
# The `CONNECT` command

The three branches of `wmi_connect_cmd` fill the same packed structure.  The name is copied with its
terminator into a field of 32 bytes that is followed by the channel, so the terminator of a name of
32 bytes lands in the low byte of the channel (`connectParams_eq`).

`connect_decodes_iff` says when the fields of the command are what they were made from.
-/

namespace DsiWifi

open ApSecurityType ApCipherType

/-- The fields of a packed `CONNECT` command. -/
structure ConnectFields where
  pairwiseCryptoType : UInt8
  groupCryptoType : UInt8
  ssidLength : ℕ
  ssid : List UInt8
  channel : ℕ
  bssid : List UInt8
  deriving DecidableEq

/-- The fields by their offsets. -/
def decodeConnect (params : List UInt8) : ConnectFields where
  pairwiseCryptoType := params.getD 3 0
  groupCryptoType := params.getD 5 0
  ssidLength := (params.getD 7 0).toNat
  ssid := Octets.slice params 8 0x20
  channel := getle16 (.ofList (Octets.slice params 40 2) 0) 0
  bssid := Octets.slice params 42 6

/-- The parameters of the `CONNECT` commands among the emissions. -/
def connectCommands (out : List Out) : List (List UInt8) :=
  out.filterMap fun o => match o with
    | .wmi (.connect params) => some params
    | _ => none

/-- The pairwise and group types each branch announces. -/
def connectCryptoTypes (ap : Ap) : UInt8 × UInt8 :=
  match ap.securityType with
  | apOpen => (1, 1)
  | apWep => (cryptWep.val, cryptWep.val)
  | apWpa | apWpa2 => (ap.pairCryptType.val, ap.groupCryptType.val)

/-- What the fields should be. -/
def connectFields (ap : Ap) : ConnectFields where
  pairwiseCryptoType := (connectCryptoTypes ap).1
  groupCryptoType := (connectCryptoTypes ap).2
  ssidLength := ap.name.length
  ssid := ap.name ++ List.replicate (0x20 - ap.name.length) 0
  channel := ap.channel
  bssid := ap.bssid.toList

/-! ## Layout -/

section Layout

variable (ap : Ap) (dot11AuthMode authMode pairwise group : UInt8)

/-- The fields before the name. -/
def connectHead : List UInt8 :=
  [1, dot11AuthMode, authMode, pairwise, 0, group, 0, .ofNat ap.name.length]

/-- The two bytes of the channel field: the terminator of a name of 32 bytes is the first of them. -/
def connectChannel : List UInt8 :=
  if ap.name.length < 0x20 then putle16 ap.channel else [0, .ofNat (ap.channel / 256)]

theorem length_connectHead :
    (connectHead ap dot11AuthMode authMode pairwise group).length = 8 := rfl

theorem length_connectChannel : (connectChannel ap).length = 2 := by
  unfold connectChannel
  split_ifs <;> rfl

/-- `strcpy` of the name into the two fields behind it, when the terminator fits the name's. -/
theorem strcpy_of_lt (h : ap.name.length < 0x20) (rest : List UInt8) :
    overwrite (List.replicate 0x20 0 ++ (putle16 ap.channel ++ rest)) 0 (ap.name ++ [0]) =
      ap.name ++ List.replicate (0x20 - ap.name.length) 0 ++ (putle16 ap.channel ++ rest) := by
  -- the terminator is the first of the zeros behind the name
  have hsplit : List.replicate 0x20 (0 : UInt8) =
      List.replicate (ap.name.length + 1) 0 ++ List.replicate (0x1F - ap.name.length) 0 := by
    rw [List.replicate_append_replicate]
    congr 1
    omega
  have hpad : List.replicate (0x20 - ap.name.length) (0 : UInt8) =
      [0] ++ List.replicate (0x1F - ap.name.length) 0 := by
    rw [show 0x20 - ap.name.length = 0x1F - ap.name.length + 1 by omega]
    rfl
  rw [hsplit, hpad, List.append_assoc, overwrite_zero (n := ap.name.length + 1) (by simp) (by simp)]
  simp only [List.append_assoc]

/-- `strcpy` of a name that fills its field: the terminator goes to the channel. -/
theorem strcpy_of_eq (h : ap.name.length = 0x20) (rest : List UInt8) :
    overwrite (List.replicate 0x20 0 ++ (putle16 ap.channel ++ rest)) 0 (ap.name ++ [0]) =
      ap.name ++ ([0, .ofNat (ap.channel / 256)] ++ rest) := by
  have hsplit : List.replicate 0x20 (0 : UInt8) ++ (putle16 ap.channel ++ rest) =
      (List.replicate 0x20 0 ++ [.ofNat ap.channel]) ++ (.ofNat (ap.channel / 256) :: rest) := rfl
  rw [hsplit, overwrite_zero rfl (by simp [h]), List.append_assoc]
  rfl

/-- The packed command, field by field. -/
theorem connectParams_eq (h : ap.name.length ≤ 0x20) :
    connectParams ap dot11AuthMode authMode pairwise group =
      connectHead ap dot11AuthMode authMode pairwise group ++
        (ap.name ++ List.replicate (0x20 - ap.name.length) 0 ++
          (connectChannel ap ++ (ap.bssid.toList ++ List.replicate 4 0))) := by
  have hhead := length_connectHead ap dot11AuthMode authMode pairwise group
  -- the command after `strcpy`
  have hname : overwrite (List.replicate 0x20 0 ++ (putle16 ap.channel ++
        (List.replicate 6 0 ++ List.replicate 4 0))) 0 (ap.name ++ [0]) =
      ap.name ++ List.replicate (0x20 - ap.name.length) 0 ++
        (connectChannel ap ++ (List.replicate 6 0 ++ List.replicate 4 0)) := by
    unfold connectChannel
    by_cases hlt : ap.name.length < 0x20
    · rw [if_pos hlt, strcpy_of_lt ap hlt]
    · have hfull : ap.name.length = 0x20 := by omega
      rw [if_neg hlt, strcpy_of_eq ap hfull, hfull]
      simp
  have hlen : (connectHead ap dot11AuthMode authMode pairwise group ++
      (ap.name ++ List.replicate (0x20 - ap.name.length) 0 ++ connectChannel ap)).length = 42 := by
    simp only [List.length_append, List.length_replicate, hhead, length_connectChannel]
    omega
  have hbssid := overwrite_append (c := List.replicate 4 0) hlen
    (show (List.replicate 6 (0 : UInt8)).length = ap.bssid.toList.length by simp)
  simp only [List.append_assoc] at hname hbssid ⊢
  unfold connectParams
  dsimp only
  rw [← connectHead]
  simp only [List.append_assoc]
  rw [overwrite_skip hhead (Nat.le_refl 8), Nat.sub_self, hname, hbssid]

theorem decodeConnect_connectParams (h : ap.name.length ≤ 0x20) :
    decodeConnect (connectParams ap dot11AuthMode authMode pairwise group) =
      { pairwiseCryptoType := pairwise
        groupCryptoType := group
        ssidLength := ap.name.length
        ssid := ap.name ++ List.replicate (0x20 - ap.name.length) 0
        channel := getle16 (.ofList (connectChannel ap) 0) 0
        bssid := ap.bssid.toList } := by
  have hhead := length_connectHead ap dot11AuthMode authMode pairwise group
  have hname : (ap.name ++ List.replicate (0x20 - ap.name.length) 0).length = 0x20 := by
    rw [List.length_append, List.length_replicate]
    omega
  have hchan := length_connectChannel ap
  unfold decodeConnect
  rw [connectParams_eq ap _ _ _ _ h]
  congr 1
  · show (UInt8.ofNat ap.name.length).toNat = ap.name.length
    rw [UInt8.toNat_ofNat']
    omega
  · exact Octets.slice_append hhead hname
  · rw [← List.append_assoc, Octets.slice_append (by rw [List.length_append, hhead, hname]) hchan]
  · rw [← List.append_assoc, ← List.append_assoc]
    refine Octets.slice_append ?_ (by simp)
    rw [List.length_append, List.length_append, hhead, hname, hchan]

/-- The channel survives unless the name fills its field and the low byte of the channel is not
zero. -/
theorem getle16_connectChannel (h : ap.channel < 2 ^ 16) :
    getle16 (.ofList (connectChannel ap) 0) 0 = ap.channel ↔
      ap.name.length < 0x20 ∨ ap.channel % 256 = 0 := by
  unfold connectChannel
  by_cases hlt : ap.name.length < 0x20
  · rw [if_pos hlt]
    exact iff_of_true (getle16_of_read rfl h) (Or.inl hlt)
  · rw [if_neg hlt]
    show (0 : UInt8).toNat + 256 * (UInt8.ofNat (ap.channel / 256)).toNat = ap.channel ↔ _
    rw [UInt8.toNat_ofNat', UInt8.toNat_zero]
    omega

end Layout

/-! ## The command -/

/-- Each branch emits one `CONNECT` command. -/
theorem connectCommands_wmiConnectCmd (ap : Ap) :
    ∃ dot11AuthMode authMode, connectCommands (wmiConnectCmd ap) =
      [connectParams ap dot11AuthMode authMode (connectCryptoTypes ap).1
        (connectCryptoTypes ap).2] := by
  unfold wmiConnectCmd connectCryptoTypes
  cases ap.securityType with
  | apOpen => exact ⟨1, 1, rfl⟩
  | apWep => exact ⟨2, 1, rfl⟩
  | apWpa => exact ⟨1, 5, rfl⟩
  | apWpa2 => exact ⟨1, 5, rfl⟩

/-- **`CONNECT` encoding.** For a name of at most 32 bytes, whichever branch is taken, the command
decodes to the name, channel, address and ciphers it was made from exactly when the name is shorter
than 32 bytes or the low byte of the channel is zero anyway. -/
theorem connect_decodes_iff (ap : Ap) (hname : ap.name.length ≤ 0x20)
    (hchan : ap.channel < 2 ^ 16) :
    (∃ params, connectCommands (wmiConnectCmd ap) = [params] ∧
        decodeConnect params = connectFields ap) ↔
      ap.name.length < 0x20 ∨ ap.channel % 256 = 0 := by
  obtain ⟨dot11AuthMode, authMode, hcmd⟩ := connectCommands_wmiConnectCmd ap
  have hdec := decodeConnect_connectParams ap dot11AuthMode authMode (connectCryptoTypes ap).1
    (connectCryptoTypes ap).2 hname
  rw [← getle16_connectChannel ap hchan, hcmd]
  constructor
  · rintro ⟨params, hparams, hfields⟩
    rw [← List.singleton_inj.1 hparams, hdec] at hfields
    exact congrArg ConnectFields.channel hfields
  · intro hch
    refine ⟨_, rfl, ?_⟩
    rw [hdec, hch]
    rfl

/-- An access point with a name of `n` letters on channel 1 (2412 MHz). -/
def namedAp (securityType : ApSecurityType) (n : ℕ) : Ap :=
  { Ap.init with securityType := securityType, name := List.replicate n 0x61, channel := 2412 }

/-- A name of 31 bytes. -/
theorem connect_decodes_sample :
    ∃ params, connectCommands (wmiConnectCmd (namedAp apWpa2 31)) = [params] ∧
      decodeConnect params = connectFields (namedAp apWpa2 31) :=
  (connect_decodes_iff (namedAp apWpa2 31) (by decide) (by decide)).2 (by decide)

/-- A name of 32 bytes: the channel becomes 0x0900. -/
theorem connect_decodes_counterexample :
    ¬∀ ap : Ap, ap.name.length ≤ 0x20 → ap.channel < 2 ^ 16 →
      ∃ params, connectCommands (wmiConnectCmd ap) = [params] ∧
        decodeConnect params = connectFields ap := by
  intro h
  obtain ⟨params, hparams, hfields⟩ := h (namedAp apOpen 32) (by decide) (by decide)
  rw [← List.singleton_inj.1 (show [connectParams (namedAp apOpen 32) 1 1 1 1] = [params] from
    hparams)] at hfields
  revert hfields
  decide

end DsiWifi
