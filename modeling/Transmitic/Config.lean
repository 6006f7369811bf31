/-
  File:      Transmitic/Config.lean
  Subject:   THE CONFIG (config.rs): its data, the checks and the sanitizing every config goes
             through, the file it is written to and read from, and the operations on it.

  * `Crates` -- what the program takes from other packages: the JSON reader and writer, the
    ciphers, the key format, the case tables;
  * `verifyConfig`, `sanitizeConfig` -- run on every config before it is written and after it is
    read;
  * `writeConfig`, `readConfig` -- the two config files on the disk, plain and encrypted;
  * `Config` and the operations on it. An operation gets the outcomes of its system calls
    (`Outcomes`) and returns its result, the config and the disk after it.
-/
import Transmitic.Base64
import Transmitic.ConfigPaths
import Transmitic.CoreConsts
import Transmitic.SharedFile

namespace Transmitic

open Lib

/-! ## 1. Data -/

structure ConfigSharedFile where
  path : Str
  sharedWith : List Str
  deriving DecidableEq, Repr

structure SharedUser where
  nickname : Str
  publicId : Str
  ip : Str
  port : Str
  allowed : Bool
  deriving DecidableEq, Repr

structure ConfigFile where
  myPrivateId : Str
  sharedUsers : List SharedUser
  sharedFiles : List ConfigSharedFile
  sharingPort : Str
  ignoreIncoming : Bool
  reverseConnection : Bool
  pathDownloads : Str
  deriving DecidableEq, Repr

structure EncryptedConfig where
  version : UInt16
  nonce : Str
  pbkdf2Iterations : UInt32
  salt : Str
  encryptedConfig : Str
  deriving DecidableEq, Repr

structure Config where
  firstStart : Bool
  configFile : ConfigFile
  localPrivateKeyBytes : List UInt8
  pathDirConfig : Str
  password : Option Str
  nonce : Nat
  iterations : UInt32
  configVersion : UInt16
  deriving DecidableEq, Repr

def configVersion : UInt16 := 0

def pbkdf2Iterations : UInt32 := 600000

/-- What the program takes from other packages. An error is its text. -/
class Crates where
  toLowercase : Str → Str
  configToJson : ConfigFile → Except Str Str
  configFromJson : Str → Except Str ConfigFile
  encryptedToJson : EncryptedConfig → Except Str Str
  encryptedFromJson : Str → Except Str EncryptedConfig
  listingToJson : SharedFile → Except Str Str
  listingFromJson : Str → Except Str SharedFile
  /-- The public key of a key pair in PKCS#8 form. -/
  ed25519FromPkcs8 : List UInt8 → Except Str (List UInt8)
  pbkdf2 : UInt32 → List UInt8 → List UInt8 → List UInt8
  aesEncrypt : List UInt8 → List UInt8 → List UInt8 → Except Str (List UInt8)
  aesDecrypt : List UInt8 → List UInt8 → List UInt8 → Except Str (List UInt8)
  crc32 : List UInt8 → UInt32

/-- The error `text` where the other package returned one. -/
def orErr {α : Type} (text : Str → Str) : Except Str α → Except Exc α
  | .ok a => .ok a
  | .error e => .error (.err (text e))

/-- The text of an error value. -/
def Exc.text : Exc → Str
  | .err e => e
  | _ => []

/-- An error under a new text; a panic stays one. -/
def mapErr {α : Type} (text : Str → Str) : Except Exc α → Except Exc α
  | .error (.err e) => .error (.err (text e))
  | r => r

/-! ## 2. Sanitizing -/

/-- Strings in the order of `str`. -/
def sortStrings (l : List Str) : List Str := l.insertionSort (· ≤ ·)

/-- A stable sort by nickname. -/
def sortByNickname (users : List SharedUser) : List SharedUser :=
  users.insertionSort (fun a b => a.nickname ≤ b.nickname)

/-- A path without `file://` in front. -/
def stripFileUrl (path : Str) : Str :=
  if "file://".toList.isPrefixOf path then path.drop 7 else path

def sanitizeUser (user : SharedUser) : SharedUser :=
  { user with
    nickname := trim user.nickname
    publicId := trim user.publicId
    ip := trim user.ip
    port := trim user.port }

def sanitizeFile (file : ConfigSharedFile) : ConfigSharedFile :=
  { path := stripFileUrl (trim file.path), sharedWith := sortStrings (file.sharedWith.map trim) }

def sanitizeConfig (configFile : ConfigFile) : ConfigFile :=
  { configFile with
    myPrivateId := trim configFile.myPrivateId
    sharingPort := trim configFile.sharingPort
    pathDownloads := trim configFile.pathDownloads
    sharedUsers := (sortByNickname configFile.sharedUsers).map sanitizeUser
    sharedFiles := configFile.sharedFiles.map sanitizeFile }

/-! ## 3. Verifying -/

/-- `str::parse::<i32>`. -/
def parseI32 (s : Str) : Option Int :=
  match s with
  | '-' :: ds => (parseDigits ds).bind fun n => if n ≤ 2 ^ 31 then some (-(n : Int)) else none
  | _ => (parseNat s).bind fun n => if n < 2 ^ 31 then some (n : Int) else none

def verifyConfigPort (port : Str) : Except Exc Unit :=
  match parseI32 port with
  | none => .error (.err "Port must be a number.".toList)
  | some p =>
    if 65535 < p then
      .error (.err ("Highest port value possible is ".toList ++ natText 65535))
    else .ok ()

def verifyConfigMyPrivateId [Crates] (myPrivateId : Str) : Except Exc Unit := do
  let localPrivateKeyBytes ←
    mapErr (fun e => "Invalid Private ID. Not b64. ".toList ++ e) (Base64.decode myPrivateId)
  let _ ← orErr (fun e => "Failed to load local key pair '".toList ++ e ++ "'.".toList)
    (Crates.ed25519FromPkcs8 localPrivateKeyBytes)
  .ok ()

/-- The first loop of `verify_config_shared_users`: how often a user's name and ID occur. -/
def verifyUserIsUnique [Crates] (sharedUsers : List SharedUser) (user : SharedUser) :
    Except Exc Unit :=
  let userCount := sharedUsers.countP fun userj =>
    Crates.toLowercase user.nickname = Crates.toLowercase userj.nickname
  let publicIdCount := sharedUsers.countP fun userj => user.publicId = userj.publicId
  if 1 < userCount then
    .error (.err ("Nicknames cannot be repeated. '".toList ++ user.nickname ++
      "' was found '".toList ++ natText userCount ++ "' times.".toList))
  else if 1 < publicIdCount then
    .error (.err ("Public IDs cannot be repeated. '".toList ++ user.publicId ++
      "' was found '".toList ++ natText publicIdCount ++ "' times.".toList))
  else .ok ()

/-- `haystack.contains(needle)`. -/
def containsStr (haystack needle : Str) : Bool := haystack.tails.any needle.isPrefixOf

/-- The second loop of `verify_config_shared_users`: the fields of one user. -/
def verifyUserFields [Crates] (user : SharedUser) : Except Exc Unit := do
  if user.nickname = [] then .error (.err "Nickname cannot be empty.".toList)
  match getBlockedUserNameChars.find? fun c => containsChar user.nickname c with
  | some c =>
    .error (.err ("Nickname '".toList ++ user.nickname ++ "' contains the character '".toList ++
      [c] ++ "' which is not allowed. These characters are not allowed:   ".toList ++
      getBlockedUserNameChars ++ "'.".toList))
  | none => .ok ()
  if containsStr (Crates.toLowercase user.nickname) "transmitic".toList then
    .error (.err "Nickname cannot contain the word 'transmitic'.".toList)
  if user.port = [] then
    .error (.err ("Port for '".toList ++ user.nickname ++ "' cannot be empty".toList))
  mapErr (fun e => user.nickname ++ "'s port is invalid. ".toList ++ e) (verifyConfigPort user.port)
  if user.publicId = [] then
    .error (.err ("PublicID for '".toList ++ user.nickname ++ "' cannot be empty".toList))
  let _ ← mapErr (fun e => user.nickname ++ "'s PublicID is invalid. Bad encoding. ".toList ++ e)
    (Base64.decode user.publicId)
  if user.ip = [] then
    .error (.err ("IP Address for '".toList ++ user.nickname ++ "' cannot be empty".toList))

def verifyConfigSharedUsers [Crates] (sharedUsers : List SharedUser) : Except Exc Unit := do
  sharedUsers.forM (verifyUserIsUnique sharedUsers)
  sharedUsers.forM verifyUserFields

/-- The first loop of `verify_config_shared_files`. -/
def verifyFileIsUnique (sharedFiles : List ConfigSharedFile) (file : ConfigSharedFile) :
    Except Exc Unit :=
  let fileCount := sharedFiles.countP fun filej => file.path = filej.path
  if 1 < fileCount then
    .error (.err ("File '".toList ++ file.path ++ "' has been shared '".toList ++
      natText fileCount ++ "' times. It can only be shared once.".toList))
  else .ok ()

/-- The second loop: the users a file is shared with. -/
def verifySharedWith (nicknames : List Str) (file : ConfigSharedFile) : Except Exc Unit :=
  file.sharedWith.forM fun user =>
    if user ∈ nicknames then .ok ()
    else .error (.err ("Cannot share file '".toList ++ file.path ++ "' with user '".toList ++ user ++
      "' as that user does not exist as a shared_user.".toList))

/-- The third loop: the path of a file. -/
def verifyFilePath (configDir : Str) (file : ConfigSharedFile) : Except Exc Unit :=
  if configDir.isPrefixOf file.path then
    .error (.err ("The Transmitic Config directory, and its sub files, cannot be shared. '".toList ++
      configDir ++ "'".toList))
  else
    match getBlockedFilePathChars.find? fun c => containsChar file.path c with
    | some c =>
      .error (.err ("Cannot share file '".toList ++ file.path ++
        "' because it contains the character '".toList ++ [c] ++
        "' which is not allowed. These characters are not allowed:   ".toList ++
        getBlockedFilePathChars ++ "'.".toList))
    | none =>
      if fileContainsOnlyValidChars file.path then .ok ()
      else .error (.err
        ("Cannot share file with relative directories or invalid characters. ".toList ++ file.path))

def verifyConfigSharedFiles (configDir : Str) (sharedUsers : List SharedUser)
    (sharedFiles : List ConfigSharedFile) : Except Exc Unit := do
  sharedFiles.forM (verifyFileIsUnique sharedFiles)
  sharedFiles.forM (verifySharedWith (sharedUsers.map SharedUser.nickname))
  sharedFiles.forM (verifyFilePath configDir)

def verifyIgnoreAndReverse (ignoreIncoming reverseConnection : Bool) : Except Exc Unit :=
  if ignoreIncoming && reverseConnection then
    .error (.err "Ignore Incoming and Reverse Connection cannot both be On.".toList)
  else .ok ()

/-- The checks on a sanitized config. -/
def verifySanitized [Crates] (configDir : Str) (configFile : ConfigFile) : Except Exc Unit := do
  verifyConfigPort configFile.sharingPort
  verifyConfigMyPrivateId configFile.myPrivateId
  verifyConfigSharedUsers configFile.sharedUsers
  verifyConfigSharedFiles configDir configFile.sharedUsers configFile.sharedFiles
  verifyIgnoreAndReverse configFile.ignoreIncoming configFile.reverseConnection

/-- `verify_config`: the config is sanitized in place, so the sanitized one is returned. -/
def verifyConfig [Crates] (configDir : Str) (configFile : ConfigFile) : Except Exc ConfigFile := do
  let configFile := sanitizeConfig configFile
  verifySanitized configDir configFile
  .ok configFile

end Transmitic
