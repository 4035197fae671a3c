import Recordkeeper.Json.Fields
import Recordkeeper.Repository

set_option autoImplicit false

namespace Recordkeeper

namespace OrderPolicy

def name : OrderPolicy → String
  | strict => "strict"
  | passthrough => "passthrough"

def ofName? (s : String) : Option OrderPolicy :=
  if s = "strict" then some strict
  else if s = "passthrough" then some passthrough
  else none

def read? (j : Json) : Option OrderPolicy := j.constant?.bind ofName?

end OrderPolicy

structure CacheConfig where
  enabled : Bool := true
  ttlSecs : UInt64 := 86400
  keyPrefix : String := "crudkit:"
  deriving DecidableEq

structure PaginationConfig where
  defaultPageSize : UInt64 := 15
  maxPageSize : Option UInt64 := none
  deriving DecidableEq

structure EngineConfig where
  cache : CacheConfig := {}
  pagination : PaginationConfig := {}
  orderPolicy : OrderPolicy := .strict
  deriving DecidableEq

namespace CacheConfig

def read? (j : Json) : Option CacheConfig := do
  let slot ← j.fields? 3
  let d : CacheConfig := {}
  return {
    enabled := ← (slot 0 "enabled").orDefault d.enabled Json.bool?
    ttlSecs := ← (slot 1 "ttl_secs").orDefault d.ttlSecs Json.uint64?
    keyPrefix := ← (slot 2 "key_prefix").orDefault d.keyPrefix Json.string? }

def write (c : CacheConfig) : Json :=
  .obj [("enabled", .bool c.enabled), ("key_prefix", .str c.keyPrefix),
    ("ttl_secs", .ofId c.ttlSecs)]

end CacheConfig

namespace PaginationConfig

def read? (j : Json) : Option PaginationConfig := do
  let slot ← j.fields? 2
  let d : PaginationConfig := {}
  return {
    defaultPageSize := ← (slot 0 "default_page_size").orDefault d.defaultPageSize Json.uint64?
    maxPageSize := ← (slot 1 "max_page_size").orDefault d.maxPageSize (Json.option? Json.uint64?) }

def write (c : PaginationConfig) : Json :=
  .obj [("default_page_size", .ofId c.defaultPageSize),
    ("max_page_size", Json.ofOption .ofId c.maxPageSize)]

end PaginationConfig

namespace EngineConfig

def read? (j : Json) : Option EngineConfig := do
  let slot ← j.fields? 3
  return {
    cache := ← (slot 0 "cache").orDefault {} CacheConfig.read?
    pagination := ← (slot 1 "pagination").orDefault {} PaginationConfig.read?
    orderPolicy := ← (slot 2 "order_policy").orDefault .strict OrderPolicy.read? }

def write (c : EngineConfig) : Json :=
  .obj [("cache", c.cache.write), ("order_policy", .str c.orderPolicy.name),
    ("pagination", c.pagination.write)]

/-- Settings that a repository cannot keep are refused, with the reason. -/
def validate (c : EngineConfig) : Except String Unit :=
  if c.pagination.defaultPageSize = 0 then
    .error "pagination.default_page_size must be positive"
  else match c.pagination.maxPageSize with
    | some m =>
      if m < c.pagination.defaultPageSize then
        .error ("pagination.max_page_size (" ++ toString m ++ ") is below default_page_size (" ++
          toString c.pagination.defaultPageSize ++ ")")
      else .ok ()
    | none => .ok ()

def repository (c : EngineConfig) : RepositoryConfig where
  cacheEnabled := c.cache.enabled
  cacheTtl := .ofSeconds c.cache.ttlSecs
  keyPrefix := c.cache.keyPrefix
  defaultPageSize := c.pagination.defaultPageSize
  maxPageSize := c.pagination.maxPageSize
  orderPolicy := c.orderPolicy

end EngineConfig

end Recordkeeper
