import MedvedDB.Prelude

namespace MedvedDB.Configuration

-- A string of the configuration points into the pool or, by default, to a
-- constant; it is none where the pool had no room for it.
structure Server where
  listen : Option String
  workers : UInt32
  deriving DecidableEq, Repr

structure Connection where
  retryInterval : UInt32
  keepIdle : UInt32
  keepCount : UInt32
  keepInterval : UInt32
  deriving DecidableEq, Repr

structure Storage where
  path : Option String
  trlog : Option String
  rowdata : Option String
  sharedBuffers : UInt64
  maxSize : UInt64
  deriving DecidableEq, Repr

structure Ebus where
  workers : UInt32
  queues : UInt32
  deriving DecidableEq, Repr

structure Batches where
  workers : UInt32
  queues : UInt32
  batchSize : UInt32
  deriving DecidableEq, Repr

structure Fetcher extends Batches where
  vmStack : UInt32
  viewsLifetime : UInt32
  deriving DecidableEq, Repr

-- `cluster` holds the nodes in use, `mempool` the number of bytes used.
structure Config where
  logLevel : Option String
  server : Server
  connection : Connection
  storage : Storage
  ebus : Ebus
  committer : Batches
  datasync : Batches
  fetcher : Fetcher
  cluster : List String
  mempool : Nat
  deriving DecidableEq, Repr

def maxClusterSize : Nat := 256

def poolCapacity : Nat := 4 * 1024

structure Setting where
  heading : String
  name : String
  value : String
  deriving DecidableEq, Repr

def isspace (char : Char) : Bool := char = ' ' || (9 ≤ char.toNat && char.toNat ≤ 13)

def sign : List Char → Bool × List Char
  | '-'::rest => (true,rest)
  | '+'::rest => (false,rest)
  | chars => (false,chars)

def scan (value : String) : Bool × Nat :=
  let (negative,rest) := sign (value.toList.dropWhile isspace)
  (negative,Nat.ofDigitChars 10 (rest.takeWhile Char.isDigit) 0)

def strtol (value : String) : Int :=
  let (negative,number) := scan value
  if negative then max (-number) (-2 ^ 63) else min number (2 ^ 63 - 1)

-- The long becomes an int and the int an unsigned field.
def atoi (value : String) : UInt32 := UInt32.ofInt (strtol value)

def str2size (value : String) : UInt64 :=
  let (negative,number) := scan value
  if 2 ^ 64 ≤ number then UInt64.ofNat (2 ^ 64 - 1) else if negative then -UInt64.ofNat number else UInt64.ofNat number

def strPdup (size : Nat) (str : String) : Option String × Nat :=
  if size + (str.utf8ByteSize + 1) ≤ poolCapacity then (some str,size + (str.utf8ByteSize + 1)) else (none,size)

-- The text is appended to the last string of the pool, in place: where it has
-- no room the string stays as it was.
def strPcat (size : Nat) (dst : Option String) (str : String) : Option String × Nat :=
  match dst with
  | none => (none,size)
  | some text => if poolCapacity - size < str.utf8ByteSize then (some text,size) else (some (text ++ str),size + str.utf8ByteSize)

def storagePaths (config : Config) (value : String) : Bool × Config :=
  let (path,size) := strPdup config.mempool value
  let (trlog,size) := strPdup size value
  let (trlog,size) := strPcat size trlog "/trlog"
  let (rowdata,size) := strPdup size value
  let (rowdata,size) := strPcat size rowdata "/rowdata"
  (path.isSome && trlog.isSome && rowdata.isSome,
    {config with storage:={config.storage with path:=path,trlog:=trlog,rowdata:=rowdata},mempool:=size})

def clusterNode (config : Config) (value : String) : Bool × Config :=
  match strPdup config.mempool value with
  | (none,size) => (false,{config with mempool:=size})
  | (some node,size) =>
    if maxClusterSize ≤ config.cluster.length then (false,{config with mempool:=size})
    else (true,{config with cluster:=config.cluster ++ [node],mempool:=size})

def cfgHandler (config : Config) (setting : Setting) : Bool × Config :=
  let value := setting.value
  match setting.heading,setting.name with
  | "server","listen" =>
    let (listen,size) := strPdup config.mempool value
    (listen.isSome,{config with server.listen:=listen,mempool:=size})
  | "server","workers" => (true,{config with server.workers:=atoi value})
  | "storage","path" => storagePaths config value
  | "storage","max_size" => (true,{config with storage.maxSize:=str2size value})
  | "storage","shared_buffers" => (true,{config with storage.sharedBuffers:=str2size value})
  | "ebus","workers" => (true,{config with ebus.workers:=atoi value})
  | "ebus","queues" => (true,{config with ebus.queues:=atoi value})
  | "committer","workers" => (true,{config with committer.workers:=atoi value})
  | "committer","queues" => (true,{config with committer.queues:=atoi value})
  | "committer","batch_size" => (true,{config with committer.batchSize:=atoi value})
  | "log","level" =>
    let (level,size) := strPdup config.mempool value
    (level.isSome,{config with logLevel:=level,mempool:=size})
  | "datasync","workers" => (true,{config with datasync.workers:=atoi value})
  | "datasync","queues" => (true,{config with datasync.queues:=atoi value})
  | "datasync","batch_size" => (true,{config with datasync.batchSize:=atoi value})
  | "fetcher","workers" => (true,{config with fetcher.workers:=atoi value})
  | "fetcher","queues" => (true,{config with fetcher.queues:=atoi value})
  | "fetcher","batch_size" => (true,{config with fetcher.batchSize:=atoi value})
  | "fetcher","vm_stack" => (true,{config with fetcher.vmStack:=atoi value})
  | "fetcher","views_lifetime" => (true,{config with fetcher.viewsLifetime:=atoi value})
  | "cluster","node" => clusterNode config value
  | "connection","retry_interval" => (true,{config with connection.retryInterval:=atoi value})
  | "connection","keep_idle" => (true,{config with connection.keepIdle:=atoi value})
  | "connection","keep_count" => (true,{config with connection.keepCount:=atoi value})
  | "connection","keep_interval" => (true,{config with connection.keepInterval:=atoi value})
  | _,_ => (false,config)

def setConfigDefaults : Config where
  logLevel := some "error"
  server := ⟨some "tcp://localhost:54222",8⟩
  connection := ⟨5,5,10,5⟩
  storage := ⟨some "./data",some "./data/trlog",some "./data/rowdata",33554432,4294963200⟩
  ebus := ⟨4,4⟩
  committer := ⟨4,4,32⟩
  datasync := ⟨4,4,32⟩
  fetcher := ⟨⟨4,4,32⟩,64,30⟩
  cluster := []
  mempool := 0

def cfgValidate (config : Config) : Bool := config.server.listen.isSome && config.storage.path.isSome

-- A setting the handler refuses is counted as an error of its line only, and
-- the parser goes on.
def applyConfig (settings : List Setting) : Option Config :=
  let config := settings.foldl (fun config setting => (cfgHandler config setting).2) setConfigDefaults
  if cfgValidate config then some config else none

def loadConfig (file : Option (List Setting)) : Option Config := file.bind applyConfig

end MedvedDB.Configuration
