import Raicoin.Alias.Process
import Raicoin.Lib.Multimap

-- How the alias application answers a search.
namespace Raicoin

open Lib Scans

-- The two strings up to the end of the second one, byte by byte.
def stringStartsWith (str sub : Text) : Bool :=
  if str.length < sub.length then false
  else (str.zip sub).all fun bytes => bytes.1 = bytes.2 ∨ lowerByte bytes.1 = lowerByte bytes.2

structure SearchEntry where
  account : Account
  name : Text
  dns : Text
  deriving DecidableEq

-- `SearchResult`, the greatest credits first.
abbrev SearchResult := List (Nat × SearchEntry)

-- `end()` stands for the use of an iterator that points to no element.
inductive SearchFault where
  | ALIAS_LEDGER_GET
  | end_
  deriving DecidableEq

-- The names that the exact part has found, and how often each account is among them.
structure ExactScan where
  result : SearchResult
  accountCount : Account → Int

namespace ExactScan

def empty : ExactScan := ⟨[], fun _ => 0⟩

def change (scan : ExactScan) (account : Account) (by_ : Int) : ExactScan :=
  { scan with
    accountCount := Function.update scan.accountCount account (scan.accountCount account + by_) }

-- An entry that is one too many goes, and so does what it counts for.
def add (scan : ExactScan) (count : Nat) (found : Nat × SearchEntry) : Except SearchFault ExactScan :=
  let scan := { scan with result := Multimap.emplace Prod.fst found scan.result }
  let scan := scan.change found.2.account 1
  if scan.result.length > count then do
    let (result, it) := Multimap.erase (scan.result.length - 1) scan.result
    let last ← orReturn it .end_
    return { scan with result }.change last.2.account (-1)
  else .ok scan

end ExactScan

namespace AliasRpcHandler

def MAX_SEARCHS_PER_QUERY : Nat := 1000

variable (store : Store) (l : AliasLedger)

-- `GetSearchEntry_`
def getSearchEntry (account : Account) : Except SearchFault (Nat × SearchEntry) := do
  let info ← orReturn (l.aliasInfoGet account) .ALIAS_LEDGER_GET
  let accountInfo ← orReturn ((store.accountInfoGet account).filter AccountInfo.valid) .ALIAS_LEDGER_GET
  let block ← orReturn (store.blockGet accountInfo.head) .ALIAS_LEDGER_GET
  return (block.credit, ⟨account, info.name, info.dns⟩)

def aliasIndexGet (bytes : List UInt8) : Except SearchFault AliasIndex :=
  orReturn (ByteTables.parse AliasIndex.deserialize bytes) .ALIAS_LEDGER_GET

-- `for (; i != n; ++i)`. Iterators that miss each other end where there is no key to get.
def entriesBetween (i n : Iterator) : Except SearchFault (List (List UInt8)) :=
  orReturn (visited i n) .ALIAS_LEDGER_GET

-- The two searches differ in the table, and in what else they ask of an entry.
section Search

variable (t : KeyTable AliasIndex) (query : Text) (wanted : SearchEntry → Bool) (count : Nat)

def exactRound (scan : ExactScan) (bytes : List UInt8) : Except SearchFault ExactScan := do
  let index ← aliasIndexGet bytes
  let found ← getSearchEntry store l index.account
  if wanted found.2 then scan.add count found else return scan

def exactScan : Except SearchFault ExactScan :=
  if query.length < 64 then do
    let entries ← entriesBetween (t.aliasLowerBound (.ofString query))
      (t.aliasUpperBound (.ofString query) 64)
    entries.foldlM (exactRound store l wanted count) .empty
  else .ok .empty

def prefixRound (left : Nat) (scan : ExactScan) (result : SearchResult) (bytes : List UInt8) :
    Except SearchFault SearchResult := do
  let index ← aliasIndexGet bytes
  if scan.accountCount index.account > 0 then return result
  else do
    let found ← getSearchEntry store l index.account
    return if wanted found.2 then Multimap.keep Prod.fst left result found else result

def prefixScan (scan : ExactScan) : Except SearchFault SearchResult :=
  if scan.result.length < count then do
    let entries ← entriesBetween (t.aliasLowerBound (.ofString query))
      (t.aliasUpperBound (.ofString query) query.length)
    (entries.take MAX_SEARCHS_PER_QUERY).foldlM
      (prefixRound store l wanted (count - scan.result.length) scan) []
  else .ok []

def aliasSearch_ : Except SearchFault (List SearchEntry) := do
  let scan ← exactScan store l t query wanted count
  let result ← prefixScan store l t query wanted count scan
  return (scan.result ++ result).map Prod.snd

end Search

def aliasSearchByName (name : Text) (count : Nat) : Except SearchFault (List SearchEntry) :=
  aliasSearch_ store l l.index name (fun _ => true) count

def aliasSearchByDns (dns name : Text) (count : Nat) : Except SearchFault (List SearchEntry) :=
  aliasSearch_ store l l.dnsIndex dns (fun entry => stringStartsWith entry.name name) count

end AliasRpcHandler

end Raicoin
