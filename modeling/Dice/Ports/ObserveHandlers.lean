import Dice.Verified.CString

/-!
# The table of observable commands

`findHandlerForCommand` maps a command name to the function that is run to
produce the observed value.  The name is compared with `strcasecmp`, so only
its C view matters: a name with an embedded NUL selects the handler of the
part before it.  `SMEMBERS` is served by `sinterCommand`, as in the command
table.
-/

namespace Dice.Ports.ObserveHandlers

open Verified.CString

/-- The command implementations that can be observed (`observeCommandHandler`),
under their source names. -/
inductive Handler
  | getCommand | strlenCommand | getrangeCommand
  | hgetCommand | hmgetCommand | hlenCommand | hgetallCommand | hkeysCommand
  | hvalsCommand | hexistsCommand | hstrlenCommand
  | llenCommand | lrangeCommand | lindexCommand | lposCommand
  | scardCommand | sismemberCommand | smismemberCommand | sinterCommand
  | zrangeCommand | zscoreCommand | zcardCommand | zrankCommand
  | zrevrankCommand | zcountCommand | zlexcountCommand | zrangebyscoreCommand
  | zrangebylexCommand | zrevrangeCommand | zrevrangebyscoreCommand
  | zrevrangebylexCommand | zmscoreCommand
  | getbitCommand | bitcountCommand | bitposCommand | bitfieldroCommand
  | pfcountCommand
  | xlenCommand | xrangeCommand | xrevrangeCommand | xpendingCommand
  | geoposCommand | geodistCommand | geosearchCommand | geohashCommand
  | sortroCommand
  | ttlCommand | pttlCommand | expiretimeCommand | pexpiretimeCommand
  | existsCommand | typeCommand
  deriving DecidableEq, Repr

/-- The comparisons of `findHandlerForCommand`, in source order. -/
def handlerTable : List (String × Handler) :=
  [ ("GET", .getCommand), ("STRLEN", .strlenCommand)
  , ("GETRANGE", .getrangeCommand)
  , ("HGET", .hgetCommand), ("HMGET", .hmgetCommand), ("HLEN", .hlenCommand)
  , ("HGETALL", .hgetallCommand), ("HKEYS", .hkeysCommand)
  , ("HVALS", .hvalsCommand), ("HEXISTS", .hexistsCommand)
  , ("HSTRLEN", .hstrlenCommand)
  , ("LLEN", .llenCommand), ("LRANGE", .lrangeCommand)
  , ("LINDEX", .lindexCommand), ("LPOS", .lposCommand)
  , ("SCARD", .scardCommand), ("SISMEMBER", .sismemberCommand)
  , ("SMISMEMBER", .smismemberCommand), ("SMEMBERS", .sinterCommand)
  , ("ZRANGE", .zrangeCommand), ("ZSCORE", .zscoreCommand)
  , ("ZCARD", .zcardCommand), ("ZRANK", .zrankCommand)
  , ("ZREVRANK", .zrevrankCommand), ("ZCOUNT", .zcountCommand)
  , ("ZLEXCOUNT", .zlexcountCommand)
  , ("ZRANGEBYSCORE", .zrangebyscoreCommand)
  , ("ZRANGEBYLEX", .zrangebylexCommand), ("ZREVRANGE", .zrevrangeCommand)
  , ("ZREVRANGEBYSCORE", .zrevrangebyscoreCommand)
  , ("ZREVRANGEBYLEX", .zrevrangebylexCommand), ("ZMSCORE", .zmscoreCommand)
  , ("GETBIT", .getbitCommand), ("BITCOUNT", .bitcountCommand)
  , ("BITPOS", .bitposCommand), ("BITFIELD_RO", .bitfieldroCommand)
  , ("PFCOUNT", .pfcountCommand)
  , ("XLEN", .xlenCommand), ("XRANGE", .xrangeCommand)
  , ("XREVRANGE", .xrevrangeCommand), ("XPENDING", .xpendingCommand)
  , ("GEOPOS", .geoposCommand), ("GEODIST", .geodistCommand)
  , ("GEOSEARCH", .geosearchCommand), ("GEOHASH", .geohashCommand)
  , ("SORT_RO", .sortroCommand)
  , ("TTL", .ttlCommand), ("PTTL", .pttlCommand)
  , ("EXPIRETIME", .expiretimeCommand), ("PEXPIRETIME", .pexpiretimeCommand)
  , ("EXISTS", .existsCommand), ("TYPE", .typeCommand) ]

/-- Map a command name to its observe handler. -/
def findHandlerForCommand (cmdName : Bytes) : Option Handler :=
  (handlerTable.find? fun entry => strcaseEq cmdName (ofString entry.1)).map Prod.snd

/-- Only the C view of the name is looked at, so the copy `sdsnew` keeps of it
selects the same handler. -/
@[simp] lemma findHandlerForCommand_cstr (cmdName : Bytes) :
    findHandlerForCommand (cstr cmdName) = findHandlerForCommand cmdName := by
  simp [findHandlerForCommand, strcaseEq]

end Dice.Ports.ObserveHandlers
