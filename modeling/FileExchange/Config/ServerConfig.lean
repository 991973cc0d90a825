import FileExchange.Config.Environment
import FileExchange.Tree.Resolve

/-!
# Settings of the server

Where the server listens, which directory it serves, where it keeps uploads and how it reports.
-/

set_option autoImplicit false

namespace FileExchange

def defaultPort : Int := 5104

structure ServerConfig where
  host : String := "127.0.0.1"
  port : Int := defaultPort
  backlog : Int := 128
  bufferSize : Int := 8192
  /-- How long a connection may stall, in seconds; for ever if there is no number. -/
  timeout : Option Binary64 := none
  rootDirectory : String := "."
  uploadDirectory : String := "uploaded"
  chunkSize : Int := 32
  logLevel : String := "INFO"
  logFormat : String := "text"
  serverName : String := "FileShare/1.0"
  deriving Repr, DecidableEq

namespace ServerConfig

def ofEnvironment (env : Environment) : Except Failure ServerConfig := do
  let port ← env.getInteger "FILESHARE_PORT" defaultPort
  let chunkSize ← env.getInteger "FILESHARE_CHUNK_SIZE" 32
  let timeout ← env.getDecimal? "FILESHARE_TIMEOUT"
  return {
    host := env.get "FILESHARE_HOST" "127.0.0.1"
    port
    rootDirectory := env.get "FILESHARE_ROOT" "."
    uploadDirectory := env.get "FILESHARE_UPLOAD_DIR" "uploaded"
    chunkSize
    timeout
    logLevel := env.get "FILESHARE_LOG_LEVEL" "INFO"
    logFormat := env.get "FILESHARE_LOG_FORMAT" "text" }

/-! ## Directories -/

def rootPath (c : ServerConfig) (t : Tree) : Except Failure Path :=
  t.resolve (Path.ofString c.rootDirectory)

/-- The real path of the directory for uploads, which need not exist. A relative one is taken from
the root. -/
def uploadPath (c : ServerConfig) (t : Tree) : Except Failure Path :=
  let upload := Path.ofString c.uploadDirectory
  if upload.isAbsolute then t.resolve upload
  else do t.resolve ((← c.rootPath t).join upload)

/-! ## Validity -/

def require (holds : Bool) (defect : Defect) : Except Failure Unit :=
  if holds then .ok () else .error (.misconfigured defect)

/-- The settings are looked at in this order and the first defect is reported. -/
def validate (c : ServerConfig) (t : Tree) : Except Failure Unit := do
  require (0 ≤ c.port && c.port < 65536) (.port c.port 0)
  require (1 ≤ c.backlog) (.tooSmall "backlog")
  require (1 ≤ c.bufferSize) (.tooSmall "buffer_size")
  require (1 ≤ c.chunkSize) (.tooSmall "chunk_size")
  require (!c.timeout.any Binary64.isAtMostZero) .timeout
  require (c.logFormat == "text" || c.logFormat == "json") (.logFormat c.logFormat)
  let root ← c.rootPath t
  let isDirectory ← t.isDirectory root
  require isDirectory (.root c.rootDirectory)

end ServerConfig

end FileExchange
