/-
  File:      Transmitic/ConfigOps.lean
  Subject:   THE CONFIG ON THE DISK and the operations that change it (config.rs).

  * `writeConfig`, `readConfig` -- the plain and the encrypted file;
  * `Config.new`, `Config.addFiles`, … -- the operations. Each one gets the outcomes of the system
    calls it makes (`Outcomes`), and returns its result with the config and the disk after it.
    A write to the disk that fails leaves the file as it was.
-/
import Transmitic.Config
import Transmitic.Lib.Bytes

namespace Transmitic

open Lib

/-! ## 1. The disk -/

/-- The two config files. -/
structure Disk where
  configJson : Option (List UInt8)
  encryptedConfig : Option (List UInt8)
  deriving DecidableEq, Repr

/-- The file `get_expected_config_path` names. -/
def Disk.file (disk : Disk) (encrypted : Bool) : Option (List UInt8) :=
  if encrypted then disk.encryptedConfig else disk.configJson

def Disk.write (disk : Disk) (encrypted : Bool) (bytes : List UInt8) : Disk :=
  if encrypted then { disk with encryptedConfig := some bytes }
  else { disk with configJson := some bytes }

def Disk.remove (disk : Disk) (encrypted : Bool) : Disk :=
  if encrypted then { disk with encryptedConfig := none } else { disk with configJson := none }

/-- What the system calls of one operation do. -/
structure Outcomes where
  createDirAll : Except Str Unit
  generateIdPair : Except Str (List UInt8 × List UInt8)
  fillSalt : Except Str (List UInt8)
  fsWrite : Except Str Unit
  removeFile : Except Str Unit

def getExpectedConfigPath (configDir : Str) (encrypted : Bool) : Str :=
  join configDir
    (if encrypted then "transmitic_config.etrc".toList else "transmitic_config.json".toList)

/-- `fs::read_to_string`. -/
def readToString (file : Option (List UInt8)) : Except Exc Str :=
  match file with
  | none => .error (.err "No such file or directory (os error 2)".toList)
  | some bytes =>
    match fromUtf8 bytes with
    | none => .error (.err "stream did not contain valid UTF-8".toList)
    | some text => .ok text

section Store

variable [Crates] (configDir : Str)

/-! ## 2. Writing -/

/-- The twelve low bytes of a counter of sixteen. -/
def nonceBytes (nonce : Nat) : List UInt8 := (beBytes 16 nonce).drop 4

def getEncryptedConfigStr (o : Outcomes) (configStr password : Str) (nonce : Nat)
    (iterations : UInt32) (version : UInt16) : Except Exc Str := do
  let salt ← orErr (fun e => "Failed to fill salt. ".toList ++ e) o.fillSalt
  if iterations = 0 then
    .error (.err ("pbkdf2 given non zero iterations. ".toList ++ natText iterations.toNat))
  let aesKey := Crates.pbkdf2 iterations salt (utf8 password)
  let ciphertext ← orErr (fun e => "Failed to encrypt config with cipher. ".toList ++ e)
    (Crates.aesEncrypt aesKey (nonceBytes nonce) (utf8 configStr))
  orErr id (Crates.encryptedToJson
    { version
      nonce := natText nonce
      pbkdf2Iterations := iterations
      salt := Base64.encode salt
      encryptedConfig := Base64.encode ciphertext })

/-- The text that goes to the file: encrypted where there is a password. -/
def getFileStr (o : Outcomes) (configStr : Str) (password : Option Str) (nonce : Nat)
    (iterations : UInt32) (version : UInt16) : Except Exc Str :=
  match password with
  | some p => getEncryptedConfigStr o configStr p nonce iterations version
  | none => .ok configStr

/-- `write_config`: the sanitized config it leaves behind, and the disk. -/
def writeConfig (o : Outcomes) (configFile : ConfigFile) (password : Option Str) (nonce : Nat)
    (iterations : UInt32) (version : UInt16) (disk : Disk) : Except Exc (ConfigFile × Disk) := do
  let configFile ← verifyConfig configDir configFile
  let configStr ← orErr id (Crates.configToJson configFile)
  let configStr ← getFileStr o configStr password nonce iterations version
  orErr id o.fsWrite
  .ok (configFile, disk.write password.isSome (utf8 configStr))

/-! ## 3. Reading -/

/-- `str::parse::<u128>`. -/
def parseU128 (s : Str) : Except Exc Nat :=
  match parseNat s with
  | none => .error (.err "invalid digit found in string".toList)
  | some n =>
    if n < 2 ^ 128 then .ok n
    else .error (.err "number too large to fit in target type".toList)

def readEncryptedConfig (password : Str) (disk : Disk) : Except Exc (Str × Nat) := do
  let configStr ← readToString disk.encryptedConfig
  let encryptedConfig ← orErr id (Crates.encryptedFromJson configStr)
  let nonce ← parseU128 encryptedConfig.nonce
  let iterations := encryptedConfig.pbkdf2Iterations
  let salt ← Base64.decode encryptedConfig.salt
  let encryptedBytes ← Base64.decode encryptedConfig.encryptedConfig
  if iterations = 0 then
    .error (.err ("pbkdf2 given non zero iterations. ".toList ++ natText iterations.toNat))
  let aesKey := Crates.pbkdf2 iterations salt (utf8 password)
  let plaintext ← orErr (fun e => "Failed to decrypt config with cipher. ".toList ++ e)
    (Crates.aesDecrypt aesKey (nonceBytes nonce) encryptedBytes)
  match fromUtf8 plaintext with
  | none => .error (.err "invalid utf-8 sequence".toList)
  | some configStr => .ok (configStr, nonce)

/-- The text of the config file, decrypted, and the nonce it was written with. -/
def readConfigString (password : Option Str) (disk : Disk) : Except Exc (Str × Nat) :=
  match password with
  | some p => readEncryptedConfig p disk
  | none => do
    let text ← readToString disk.configJson
    .ok (text, nonceInit)

def readConfig (password : Option Str) (disk : Disk) : Except Exc (ConfigFile × Nat) := do
  let configPath := getExpectedConfigPath configDir password.isSome
  if disk.file password.isSome = none then
    .error (.err ("config file does not exist at '".toList ++ configPath ++ "'".toList))
  let (configString, nonce) ← readConfigString password disk
  let configFile ←
    orErr (fun e => "config is invalid '".toList ++ configPath ++ "' -- ".toList ++ e)
      (Crates.configFromJson configString)
  let configFile ← verifyConfig configDir configFile
  .ok (configFile, nonce)

/-! ## 4. The operations -/

def createNewConfig (o : Outcomes) (password : Option Str) (nonce : Nat) (iterations : UInt32)
    (version : UInt16) (disk : Disk) : Except Exc Disk := do
  let (privateIdBytes, _) ← orErr id o.generateIdPair
  let emptyConfig : ConfigFile :=
    { myPrivateId := Base64.encode privateIdBytes
      sharedUsers := []
      sharedFiles := []
      sharingPort := "45454".toList
      ignoreIncoming := false
      reverseConnection := false
      pathDownloads := [] }
  let (_, disk) ← writeConfig configDir o emptyConfig password nonce iterations version disk
  .ok disk

/-- The disk `Config::new` reads from: on the first start a new config is written. -/
def createIfFirstStart (isFirstStart : Bool) (o : Outcomes) (password : Option Str)
    (disk : Disk) : Except Exc Disk :=
  if isFirstStart then
    createNewConfig configDir o password nonceInit pbkdf2Iterations configVersion disk
  else .ok disk

namespace Config

/-- `Config::new`. -/
def new (isFirstStart : Bool) (password : Option Str) (o : Outcomes) (disk : Disk) :
    Except Exc (Config × Disk) := do
  orErr id o.createDirAll
  let disk ← createIfFirstStart configDir isFirstStart o password disk
  let (configFile, nonce) ← readConfig configDir password disk
  let localPrivateKeyBytes ← Base64.decode configFile.myPrivateId
  .ok ({ firstStart := isFirstStart
         configFile
         localPrivateKeyBytes
         pathDirConfig := configDir
         password
         nonce
         iterations := pbkdf2Iterations
         configVersion := Transmitic.configVersion }, disk)

def isConfigEncrypted (c : Config) : Bool := c.password.isSome

/-- The counter of an encrypted config moves on before every write. -/
def nextNonce (c : Config) : Nat :=
  if c.password.isSome then if nonceMax ≤ c.nonce then 0 else c.nonce + 1 else c.nonce

/-- `write_and_set_config`. -/
def writeAndSetConfig (c : Config) (configFile : ConfigFile) (o : Outcomes) (disk : Disk) :
    Except Exc Unit × Config × Disk :=
  let c := { c with nonce := c.nextNonce }
  match writeConfig configDir o configFile c.password c.nonce c.iterations c.configVersion disk with
  | .error e => (.error e, c, disk)
  | .ok (configFile, disk) => (.ok (), { c with configFile }, disk)

def decryptConfig (c : Config) (o : Outcomes) (disk : Disk) : Except Exc Unit × Config × Disk :=
  if !c.isConfigEncrypted then
    (.error (.err "Config is not encrypted. It cannot be decrypted.".toList), c, disk)
  else
    let password := c.password
    match writeAndSetConfig configDir { c with password := none } c.configFile o disk with
    | (.error e, c, disk) => (.error e, { c with password }, disk)
    | (.ok (), c, disk) =>
      match o.removeFile with
      | .error e => (.error (.err e), c, disk)
      | .ok () => (.ok (), c, disk.remove true)

def encryptConfig (c : Config) (password : Str) (o : Outcomes) (disk : Disk) :
    Except Exc Unit × Config × Disk :=
  if c.password.isSome then
    (.error (.err "Cannot encrypt config because it is already encrypyted".toList), c, disk)
  else
    match writeAndSetConfig configDir { c with password := some password } c.configFile o disk with
    | (.error e, c, disk) => (.error e, { c with password := none }, disk)
    | (.ok (), c, disk) =>
      match o.removeFile with
      | .error e => (.error (.err e), c, disk)
      | .ok () => (.ok (), c, disk.remove false)

/-- The files of `add_files` that are not shared yet. `existing_paths` is not extended on the
    way. -/
def newFiles (existingPaths : List Str) : List Str → List ConfigSharedFile
  | [] => []
  | file :: files =>
    let file := stripFileUrl file
    if file ∈ existingPaths then newFiles existingPaths files
    else { path := file, sharedWith := [] } :: newFiles existingPaths files

def addFiles (c : Config) (files : List Str) (o : Outcomes) (disk : Disk) :
    Except Exc Unit × Config × Disk :=
  let existingPaths := c.configFile.sharedFiles.map ConfigSharedFile.path
  writeAndSetConfig configDir c
    { c.configFile with
      sharedFiles := c.configFile.sharedFiles ++ newFiles existingPaths files } o disk

def addNewUser (c : Config) (newNickname newPublicId newIp newPort : Str) (o : Outcomes)
    (disk : Disk) : Except Exc Unit × Config × Disk :=
  let sharedUser : SharedUser :=
    { publicId := newPublicId, nickname := newNickname, ip := newIp, port := newPort,
      allowed := true }
  writeAndSetConfig configDir c
    { c.configFile with sharedUsers := c.configFile.sharedUsers ++ [sharedUser] } o disk

/-- The first element that meets `p`, changed by `f`. -/
def updateFirst {α : Type} (p : α → Bool) (f : α → α) : List α → List α
  | [] => []
  | x :: xs => if p x then f x :: xs else x :: updateFirst p f xs

def addUserToShared (c : Config) (nickname filePath : Str) (o : Outcomes) (disk : Disk) :
    Except Exc Unit × Config × Disk :=
  if !c.configFile.sharedUsers.any fun shared => shared.nickname = nickname then
    (.error (.err ("Could not share file '".toList ++ filePath ++ "'. User '".toList ++ nickname ++
      "' does not exist.".toList)), c, disk)
  else
    match c.configFile.sharedFiles.find? fun file => file.path = filePath with
    | none => (.error (.err ("Could not find file '".toList ++ filePath ++
        "' to share with user '".toList ++ nickname ++ "'.".toList)), c, disk)
    | some file =>
      if nickname ∈ file.sharedWith then (.ok (), c, disk)
      else
        writeAndSetConfig configDir c
          { c.configFile with
            sharedFiles := updateFirst (fun file => file.path = filePath)
              (fun file => { file with sharedWith := file.sharedWith ++ [nickname] })
              c.configFile.sharedFiles } o disk

def createNewId (c : Config) (o : Outcomes) (disk : Disk) : Except Exc Unit × Config × Disk :=
  match o.generateIdPair with
  | .error e => (.error (.err e), c, disk)
  | .ok (privateIdBytes, _) =>
    match writeAndSetConfig configDir c
        { c.configFile with myPrivateId := Base64.encode privateIdBytes } o disk with
    | (.error e, c, disk) => (.error e, c, disk)
    | (.ok (), c, disk) =>
      match Base64.decode c.configFile.myPrivateId with
      | .error e => (.error e, c, disk)
      | .ok localPrivateKeyBytes => (.ok (), { c with localPrivateKeyBytes }, disk)

def removeFileFromSharing (c : Config) (filePath : Str) (o : Outcomes) (disk : Disk) :
    Except Exc Unit × Config × Disk :=
  writeAndSetConfig configDir c
    { c.configFile with
      sharedFiles := c.configFile.sharedFiles.filter fun x => x.path ≠ filePath } o disk

def removeUserFromSharing (c : Config) (nickname filePath : Str) (o : Outcomes) (disk : Disk) :
    Except Exc Unit × Config × Disk :=
  writeAndSetConfig configDir c
    { c.configFile with
      sharedFiles := c.configFile.sharedFiles.map fun file =>
        if file.path = filePath then
          { file with sharedWith := file.sharedWith.filter fun x => x ≠ nickname }
        else file } o disk

def removeUser (c : Config) (nickname : Str) (o : Outcomes) (disk : Disk) :
    Except Exc Unit × Config × Disk :=
  writeAndSetConfig configDir c
    { c.configFile with
      sharedFiles := c.configFile.sharedFiles.map fun file =>
        { file with sharedWith := file.sharedWith.filter fun x => x ≠ nickname }
      sharedUsers := c.configFile.sharedUsers.filter fun x => x.nickname ≠ nickname } o disk

def setPort (c : Config) (port : Str) (o : Outcomes) (disk : Disk) :
    Except Exc Unit × Config × Disk :=
  writeAndSetConfig configDir c { c.configFile with sharingPort := port } o disk

def setPathDownloadsDir (c : Config) (path : Str) (o : Outcomes) (disk : Disk) :
    Except Exc Unit × Config × Disk :=
  writeAndSetConfig configDir c { c.configFile with pathDownloads := path } o disk

def setIgnoreIncoming (c : Config) (state : Bool) (o : Outcomes) (disk : Disk) :
    Except Exc Unit × Config × Disk :=
  writeAndSetConfig configDir c { c.configFile with ignoreIncoming := state } o disk

def setReverseConnection (c : Config) (state : Bool) (o : Outcomes) (disk : Disk) :
    Except Exc Unit × Config × Disk :=
  writeAndSetConfig configDir c { c.configFile with reverseConnection := state } o disk

def setUserIsAllowedState (c : Config) (nickname : Str) (isAllowed : Bool) (o : Outcomes)
    (disk : Disk) : Except Exc Unit × Config × Disk :=
  if c.configFile.sharedUsers.any fun user => user.nickname = nickname then
    writeAndSetConfig configDir c
      { c.configFile with
        sharedUsers := updateFirst (fun user => user.nickname = nickname)
          (fun user => { user with allowed := isAllowed }) c.configFile.sharedUsers } o disk
  else
    (.error (.err ("Could not find user '".toList ++ nickname ++ "' to set Allowed state '".toList ++
      (if isAllowed then "true".toList else "false".toList) ++ "'.".toList)), c, disk)

def updateUser (c : Config) (nickname newPublicId newIp newPort : Str) (o : Outcomes)
    (disk : Disk) : Except Exc Unit × Config × Disk :=
  if c.configFile.sharedUsers.any fun user => user.nickname = nickname then
    writeAndSetConfig configDir c
      { c.configFile with
        sharedUsers := updateFirst (fun user => user.nickname = nickname)
          (fun user => { user with publicId := newPublicId, ip := newIp, port := newPort })
          c.configFile.sharedUsers } o disk
  else
    (.error (.err ("Failed to find user '".toList ++ nickname ++
      "'. Could not update user.".toList)), c, disk)

end Config

/-! ## 5. Runs -/

/-- The operations a user has on the config, with their arguments. -/
inductive Operation where
  | addFiles (files : List Str)
  | addNewUser (newNickname newPublicId newIp newPort : Str)
  | addUserToShared (nickname filePath : Str)
  | createNewId
  | removeFileFromSharing (filePath : Str)
  | removeUserFromSharing (nickname filePath : Str)
  | removeUser (nickname : Str)
  | setPort (port : Str)
  | setPathDownloadsDir (path : Str)
  | setIgnoreIncoming (state : Bool)
  | setReverseConnection (state : Bool)
  | setUserIsAllowedState (nickname : Str) (isAllowed : Bool)
  | updateUser (nickname newPublicId newIp newPort : Str)
  | encryptConfig (password : Str)
  | decryptConfig

def Operation.run (c : Config) (o : Outcomes) (disk : Disk) :
    Operation → Except Exc Unit × Config × Disk
  | .addFiles files => c.addFiles configDir files o disk
  | .addNewUser nickname publicId ip port => c.addNewUser configDir nickname publicId ip port o disk
  | .addUserToShared nickname filePath => c.addUserToShared configDir nickname filePath o disk
  | .createNewId => c.createNewId configDir o disk
  | .removeFileFromSharing filePath => c.removeFileFromSharing configDir filePath o disk
  | .removeUserFromSharing nickname filePath =>
    c.removeUserFromSharing configDir nickname filePath o disk
  | .removeUser nickname => c.removeUser configDir nickname o disk
  | .setPort port => c.setPort configDir port o disk
  | .setPathDownloadsDir path => c.setPathDownloadsDir configDir path o disk
  | .setIgnoreIncoming state => c.setIgnoreIncoming configDir state o disk
  | .setReverseConnection state => c.setReverseConnection configDir state o disk
  | .setUserIsAllowedState nickname isAllowed =>
    c.setUserIsAllowedState configDir nickname isAllowed o disk
  | .updateUser nickname publicId ip port => c.updateUser configDir nickname publicId ip port o disk
  | .encryptConfig password => c.encryptConfig configDir password o disk
  | .decryptConfig => c.decryptConfig configDir o disk

/-- The configs and disks a program start and operations that meet `allowed` lead to. A panic ends
    the program, so the run ends there; an error does not. -/
inductive ConfigRun (allowed : Config → Operation → Prop) : Config → Disk → Prop where
  | start (isFirstStart : Bool) (password : Option Str) (o : Outcomes) (disk disk' : Disk)
      (c : Config) (h : Config.new configDir isFirstStart password o disk = .ok (c, disk')) :
      ConfigRun allowed c disk'
  | step (c c' : Config) (disk disk' : Disk) (op : Operation) (o : Outcomes)
      (r : Except Exc Unit) (hrun : ConfigRun allowed c disk) (hop : allowed c op)
      (h : op.run configDir c o disk = (r, c', disk')) (hr : r ≠ .error .panic) :
      ConfigRun allowed c' disk'

end Store

end Transmitic
