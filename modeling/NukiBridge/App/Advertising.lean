import NukiBridge.Pairing.Handshake

/-! Which advertisements `device_found` takes for the lock: that of the paired address,
or without a pairing that of any Nuki lock. `bt_data_parse` hands the callbacks one AD
structure after the other, until one of them returns false. -/
namespace NukiBridge

/-- `struct bt_data`. -/
structure BtData where
  type : UInt8
  data : List UInt8
  deriving DecidableEq

/-! `BT_DATA_UUID128_SOME` and its siblings. -/

def btDataUuid128Some : UInt8 := 0x06
def btDataUuid128All : UInt8 := 0x07
def btDataNameShortened : UInt8 := 0x08
def btDataNameComplete : UInt8 := 0x09
def btDataSvcData128 : UInt8 := 0x21

/-- `nuki_keyturner_service_uuid`, in the order of the air. -/
def nukiKeyturnerServiceUuid : List UInt8 :=
  [0x66, 0x9a, 0x0c, 0x20, 0x00, 0x08, 0x6c, 0x91, 0xe4, 0x11, 0x01, 0x55, 0x00, 0xe2, 0x2e, 0xa9]

/-- `NUKI_NAME_PREFIX`. -/
def nukiNamePrefix : List UInt8 := "Nuki_".toList.map fun c => c.toNat.toUInt8

def uuid128Matches (bytes target : List UInt8) : Bool := bytes.take 16 = target

/-- Whether `ad_uuid_cb` finds the UUID in one structure: in a list of UUIDs, or in
front of the service data. -/
def adUuidCb (target : List UInt8) (data : BtData) : Bool :=
  if data.type = btDataUuid128All ∨ data.type = btDataUuid128Some then
    (List.range (data.data.length / 16)).any fun i =>
      uuid128Matches (data.data.drop (16 * i)) target
  else if data.type = btDataSvcData128 then
    data.data.length ≥ 16 && uuid128Matches data.data target
  else false

def adHasUuid (ad : List BtData) (target : List UInt8) : Bool := ad.any (adUuidCb target)

/-- The first name, cut to 30 characters. -/
def adGetName (ad : List BtData) : List UInt8 :=
  match ad.find? fun data => data.type = btDataNameComplete ∨ data.type = btDataNameShortened with
  | some data => data.data.take (min data.data.length 30)
  | none => []

/-- `strncmp` with the prefix, which has no terminator in it. -/
def adHasNukiName (ad : List BtData) : Bool :=
  (adGetName ad).take nukiNamePrefix.length = nukiNamePrefix

/-- The match of `device_found`. -/
def isLock (paired : Option PairingData) (addr : BtAddrLe) (ad : List BtData) : Bool :=
  match paired with
  | some data => addr = data.addr
  | none => adHasUuid ad nukiKeyturnerServiceUuid || adHasNukiName ad

end NukiBridge
