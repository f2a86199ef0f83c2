import TableApi.Posts.Model
import TableApi.Resource.Registry

/-! The resource of posts: its listing options, its writable fields and its hooks. -/

namespace TableApi.Posts

def texts (names : List String) : Value := .list (names.map Value.text)

def options : Value := .map [
  ("pagination", .map [("enabled", .bool true), ("default_per", .int 10), ("max_per", .int 50)]),
  ("sorting", .map [("enabled", .bool true),
    ("allowed_fields", texts ["id", "title", "created_at", "updated_at"])]),
  ("searching", .map [("enabled", .bool true),
    ("searchable_fields", texts ["title", "content"])]),
  ("filtering", .map [("enabled", .bool true), ("filterable_fields", texts ["status"])])]

/-- A post that is created as published is published now, unless its time is given. -/
def beforeCreate : Hook := fun input =>
  let published := (input.record.value "status") matches .text "published"
  if published && (input.record.value "published_at").isNull then
    .ok (.bool true, Entries.put "published_at" (.moment input.now) input.record)
  else .ok (.bool true, input.record)

def afterCreate : Hook := fun input => .ok (.null, input.record)

def registration : Registration where
  name := .text "posts"
  model := model
  options := options
  permitted := texts ["title", "content", "status", "published_at"]
  indexFields := .null
  showFields := .null
  hooks := [(.text "before_create", some beforeCreate), (.text "after_create", some afterCreate)]
  collection? := none

end TableApi.Posts
