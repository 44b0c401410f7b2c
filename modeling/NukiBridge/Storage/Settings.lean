import NukiBridge.Durable.Copies
import NukiBridge.Pairing.Handshake

/-! `nuki_storage.c`: the record of the pairing in RAM and in the settings, as the bytes
that are written to flash and read back by the handler of the subtree `nuki`. -/
namespace NukiBridge

open Buffer Durable

/-- `sizeof(struct nuki_pairing_data)`: there is a byte of padding before `auth_id`. -/
def pairingLen : Nat := 64

namespace PairingData

/-- The record in memory. The padding is whatever it is. -/
def bytes (data : PairingData) (padding : UInt8) : Bytes pairingLen :=
  ⟨[data.addr.type] ++ data.addr.val.val ++ [padding] ++ sysPutLe32 data.authId ++
    sysPutLe32 data.appId ++ data.sharedKey.val ++ data.lockUuid.val, by simp [pairingLen]⟩

def ofBytes (b : Bytes pairingLen) : PairingData where
  addr := ⟨b.val.headD 0, b.slice 1 6 (by decide)⟩
  authId := sysGetLe32 (b.val.drop 8)
  appId := sysGetLe32 (b.val.drop 12)
  sharedKey := b.slice 16 32 (by decide)
  lockUuid := b.slice 48 16 (by decide)

@[simp] theorem ofBytes_bytes (data : PairingData) (padding : UInt8) :
    ofBytes (data.bytes padding) = data := by
  obtain ⟨⟨type, val⟩, authId, appId, sharedKey, lockUuid⟩ := data
  have hDrop (v : UInt32) {n : Nat} (h : 4 ≤ n) : (sysPutLe32 v).drop n = [] :=
    List.drop_eq_nil_of_le h
  simp [ofBytes, bytes, Bytes.slice, List.drop_append, List.drop_eq_nil_of_le,
    List.take_of_length_le, hDrop]

end PairingData

/-- A setting: its name and its value. -/
structure Setting where
  name : List Char
  value : List UInt8

/-- The subtree of the handler, and the name of the record in it. -/
def nukiSubtree : List Char := "nuki/".toList

def pairingName : List Char := "pairing".toList

def nukiPairingName : List Char := nukiSubtree ++ pairingName

/-- `settings_name_steq`: the name is the key, or goes on after it with a separator. -/
def settingsNameSteq : (name key : List Char) → Bool
  | [], [] => true
  | c :: _, [] => c = '/' ∨ c = '='
  | [], _ :: _ => false
  | c :: name, k :: key => (c = k ∧ c ≠ '=') && settingsNameSteq name key

/-- What `read_cb` does: it reads all of the value, or fails after some of it. -/
inductive ReadBack where
  | complete
  | failed (rc : Int) (negative : rc < 0) (copied : List UInt8)

/-- What a write to the settings returns, and whether it took effect. It did unless it
returns an error, and may have even then. -/
structure FlashWrite where
  err : Int
  took : Bool
  sound : err = 0 → took = true

/-- The settings, in the order in which they are loaded. No one else writes to the name of
the pairing or below it, but the record may be one of an earlier version. -/
structure Flash where
  before : List Setting
  pairing : Option (List UInt8)
  after : List Setting
  foreign : ∀ setting ∈ before ++ after, ¬nukiPairingName <+: setting.name

def Flash.settings (f : Flash) : List Setting :=
  f.before ++ (f.pairing.map (Setting.mk nukiPairingName)).toList ++ f.after

/-- `pairing` and `have_pairing`, and the flash. -/
structure Storage where
  pairing : Bytes pairingLen
  havePairing : Bool
  flash : Flash

namespace Storage

def nukiSettingsSet (name : List Char) (value : List UInt8) (readBack : ReadBack) (s : Storage) :
    Int × Storage :=
  if settingsNameSteq name pairingName = true ∧ value.length = pairingLen then
    match readBack with
    | .complete => (0, { s with pairing := .ofList _ value, havePairing := true })
    | .failed rc _ copied => (rc, { s with pairing := .ofList _ (memcpy s.pairing.val 0 copied) })
  else (-enoent, s)

/-- A setting is handed to the handler of its subtree, and it is only logged if this fails. -/
def settingsCallSetHandler (readings : List Char → ReadBack) (s : Storage) (setting : Setting) :
    Storage :=
  match nukiSubtree.isPrefixOf? setting.name with
  | some name => (nukiSettingsSet name setting.value (readings setting.name) s).2
  | none => s

def settingsLoad (readings : List Char → ReadBack) (s : Storage) : Storage :=
  s.flash.settings.foldl (settingsCallSetHandler readings) s

def nukiStorageHasPairing (s : Storage) : Bool := s.havePairing

def nukiStorageGetPairing (s : Storage) : Option PairingData :=
  if s.havePairing = true then some (.ofBytes s.pairing) else none

def nukiStorageSavePairing (data : PairingData) (padding : UInt8) (written : FlashWrite)
    (s : Storage) : Int × Storage :=
  let record := data.bytes padding
  (written.err, {
    pairing := record
    havePairing := true
    flash := if written.took = true then { s.flash with pairing := some record.val } else s.flash })

def nukiStorageClearPairing (written : FlashWrite) (s : Storage) : Int × Storage :=
  (written.err, {
    pairing := .zero _
    havePairing := false
    flash := if written.took = true then { s.flash with pairing := none } else s.flash })

/-- A reset: only the flash is left, and `main` loads the settings. -/
def boot (readings : List Char → ReadBack) (flash : Flash) : Storage :=
  settingsLoad readings ⟨.zero _, false, flash⟩

end Storage

/-- What happens to the storage, now and at every reset. -/
inductive StorageEvent where
  | save (data : PairingData) (padding : UInt8) (written : FlashWrite)
  | clear (written : FlashWrite)
  | reset (readings : List Char → ReadBack)

def StorageEvent.perform : StorageEvent → Storage → Storage
  | .save data padding written, s => (s.nukiStorageSavePairing data padding written).2
  | .clear written, s => (s.nukiStorageClearPairing written).2
  | .reset readings, s => .boot readings s.flash

def Storage.after (history : List StorageEvent) (s : Storage) : Storage :=
  history.foldl (fun s e => e.perform s) s

section Copies

/-- The pairing that the flash holds. A record of another length is none. -/
def Flash.stored (f : Flash) : Option PairingData :=
  f.pairing.bind fun value =>
    if value.length = pairingLen then some (.ofBytes (.ofList _ value)) else none

def Storage.copies (s : Storage) : Copies PairingData :=
  ⟨s.nukiStorageGetPairing, s.flash.stored⟩

def ReadBack.works : ReadBack → Bool
  | .complete => true
  | .failed _ _ _ => false

def StorageEvent.change : StorageEvent → Change PairingData
  | .save data _ written => .write (some data) written.took
  | .clear written => .write none written.took
  | .reset readings => .restart (readings nukiPairingName).works

theorem prefix_of_settingsNameSteq {name key : List Char}
    (h : settingsNameSteq name key = true) : key <+: name := by
  induction name, key using settingsNameSteq.induct with
  | case1 => exact List.prefix_rfl
  | case2 c name => exact List.nil_prefix
  | case3 k key => cases h
  | case4 c name k key ih =>
      rw [settingsNameSteq, Bool.and_eq_true, decide_eq_true_eq] at h
      obtain ⟨⟨rfl, -⟩, hRest⟩ := h
      exact List.prefix_cons_inj c |>.mpr (ih hRest)

namespace Storage

variable {readings : List Char → ReadBack}

/-- An entry of another subsystem is not passed to the handler of the pairing. -/
theorem settingsCallSetHandler_foreign {setting : Setting}
    (h : ¬nukiPairingName <+: setting.name) (s : Storage) :
    settingsCallSetHandler readings s setting = s := by
  cases hName : nukiSubtree.isPrefixOf? setting.name with
  | none => rw [settingsCallSetHandler, hName]
  | some name =>
      have hSplit : nukiSubtree ++ name = setting.name :=
        List.append_eq_of_isPrefixOf?_eq_some hName
      have hOther : ¬(settingsNameSteq name pairingName = true ∧
          setting.value.length = pairingLen) := by
        rintro ⟨hSteq, -⟩
        obtain ⟨rest, rfl⟩ := prefix_of_settingsNameSteq hSteq
        exact h ⟨rest, by rw [← hSplit, nukiPairingName, List.append_assoc]⟩
      rw [settingsCallSetHandler, hName]
      exact congrArg Prod.snd (if_neg hOther)

theorem settingsCallSetHandler_pairing (value : List UInt8) (s : Storage) :
    settingsCallSetHandler readings s ⟨nukiPairingName, value⟩ =
      (nukiSettingsSet pairingName value (readings nukiPairingName) s).2 := by
  have hName : nukiSubtree.isPrefixOf? nukiPairingName = some pairingName := by decide
  rw [settingsCallSetHandler, hName]

/-- Loading goes over all entries in the flash, and the foreign ones change nothing. -/
theorem settingsLoad_foreign {settings : List Setting}
    (foreign : ∀ setting ∈ settings, ¬nukiPairingName <+: setting.name) (s : Storage) :
    settings.foldl (settingsCallSetHandler readings) s = s := by
  induction settings with
  | nil => rfl
  | cons setting rest ih =>
      obtain ⟨hSetting, hRest⟩ := List.forall_mem_cons.mp foreign
      rw [List.foldl_cons, settingsCallSetHandler_foreign hSetting, ih hRest]

/-- Of the settings only the record counts, wherever it is found. -/
theorem boot_eq (flash : Flash) : boot readings flash =
    (flash.pairing.map (Setting.mk nukiPairingName)).toList.foldl (settingsCallSetHandler readings)
      ⟨.zero _, false, flash⟩ := by
  obtain ⟨hBefore, hAfter⟩ := List.forall_mem_append.mp flash.foreign
  show flash.settings.foldl (settingsCallSetHandler readings) _ = _
  rw [Flash.settings, List.foldl_append, List.foldl_append, settingsLoad_foreign hBefore,
    settingsLoad_foreign hAfter]

/-- After the boot the RAM holds what the flash holds if it can be read, and nothing if it
cannot. -/
theorem copies_boot (flash : Flash) : (boot readings flash).copies =
    ⟨if (readings nukiPairingName).works = true then flash.stored else none, flash.stored⟩ := by
  rw [boot_eq]
  cases hPairing : flash.pairing with
  | none => simp [copies, nukiStorageGetPairing, Flash.stored, hPairing]
  | some value =>
      have hSteq : settingsNameSteq pairingName pairingName = true := by decide
      rw [Option.map_some, Option.toList_some, List.foldl_cons, List.foldl_nil,
        settingsCallSetHandler_pairing]
      by_cases hLength : value.length = pairingLen
      · cases hReading : readings nukiPairingName <;>
          simp [nukiSettingsSet, hSteq, hLength, copies, nukiStorageGetPairing, Flash.stored,
            hPairing, ReadBack.works]
      · simp [nukiSettingsSet, hLength, copies, nukiStorageGetPairing, Flash.stored, hPairing]

end Storage

/-- Each event of the storage changes the two copies as the abstract change says. This is the
refinement, one event at a time. -/
theorem copies_perform (e : StorageEvent) (s : Storage) :
    (e.perform s).copies = e.change.apply s.copies := by
  cases e with
  | save data padding written =>
      cases hTook : written.took <;>
        simp [StorageEvent.perform, Storage.nukiStorageSavePairing, Storage.copies,
          Storage.nukiStorageGetPairing, StorageEvent.change, Change.apply, hTook, Flash.stored]
  | clear written =>
      cases hTook : written.took <;>
        simp [StorageEvent.perform, Storage.nukiStorageClearPairing, Storage.copies,
          Storage.nukiStorageGetPairing, StorageEvent.change, Change.apply, hTook, Flash.stored]
  | reset readings => exact Storage.copies_boot s.flash

end Copies

/-- Whatever is saved, cleared and reset in whatever order, what `nuki_storage_get_pairing`
returns is what was saved last and not cleared; failures of the flash change this only at
a reset. -/
theorem pairing_persists (readings : List Char → ReadBack) (flash : Flash)
    (history : List StorageEvent) :
    ((Storage.boot readings flash).after history).copies =
        replay ((StorageEvent.reset readings :: history).map StorageEvent.change)
          ⟨none, flash.stored⟩ ∧
      ((∀ e ∈ StorageEvent.reset readings :: history, e.change.works = true) →
        ((Storage.boot readings flash).after history).nukiStorageGetPairing =
          latest (history.map StorageEvent.change) flash.stored) := by
  have hRun : ((Storage.boot readings flash).after history).copies =
      replay (history.map StorageEvent.change) (Storage.boot readings flash).copies :=
    replay_of_steps copies_perform history _
  constructor
  · rw [hRun, List.map_cons, replay_cons, Storage.copies_boot]
    rfl
  · intro works
    obtain ⟨hFirst, hRest⟩ := List.forall_mem_cons.mp works
    have hReads : (readings nukiPairingName).works = true := hFirst
    have hWorks : ∀ change ∈ history.map StorageEvent.change, change.works = true :=
      List.forall_mem_map.mpr hRest
    rw [Storage.copies_boot, if_pos hReads, replay_works hWorks] at hRun
    exact congrArg Copies.volatile hRun

end NukiBridge
