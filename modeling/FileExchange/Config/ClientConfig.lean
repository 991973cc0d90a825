import FileExchange.Config.ServerConfig

/-!
# Settings of the client

Which server the client sends files to, and in which pieces.
-/

set_option autoImplicit false

namespace FileExchange

structure ClientConfig where
  host : String := "localhost"
  port : Int := defaultPort
  chunkSize : Int := 128
  maxWorkers : Int := 8
  connectTimeout : Option Binary64 := some (Binary64.nearest false 10 1)
  deriving Repr, DecidableEq

namespace ClientConfig

def ofEnvironment (env : Environment) : Except Failure ClientConfig := do
  let port ← env.getInteger "FILESHARE_PORT" defaultPort
  let chunkSize ← env.getInteger "FILESHARE_CLIENT_CHUNK_SIZE" 128
  return { host := env.get "FILESHARE_HOST" "localhost", port, chunkSize }

def validate (c : ClientConfig) : Except Failure Unit := do
  ServerConfig.require (0 < c.port && c.port < 65536) (.port c.port 1)
  ServerConfig.require (1 ≤ c.chunkSize) (.tooSmall "chunk_size")
  ServerConfig.require (1 ≤ c.maxWorkers) (.tooSmall "max_workers")

end ClientConfig

end FileExchange
