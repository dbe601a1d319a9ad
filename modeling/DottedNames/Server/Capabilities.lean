import DottedNames.Server.Shape

/-!
# What an editor can do

An editor that opens a session lists what it can do: features of its
workspace, of its documents, of its windows and in general. The server offers
the same to every editor, whatever it lists, but it wants the list to be well
formed: a member known here that is of the wrong type makes the parameters of
the request invalid. Members that are not known are passed over.
-/

namespace DottedNames

namespace Server

/-! ## Shapes that recur -/

/-- Members that are truth values. -/
def flags (names : List String) : List (String × Shape) := names.map fun name => (name, .flag)

/-- A feature about which nothing is said but whether it may be switched on
later. -/
def plainFeature : Shape := .record (flags ["dynamicRegistration"])

/-- A feature whose answers may be links. -/
def linkFeature : Shape := .record (flags ["dynamicRegistration", "linkSupport"])

/-- A feature that the server may ask to be refreshed. -/
def refreshFeature : Shape := .record (flags ["refreshSupport"])

/-- The values out of a set that an editor knows. -/
def valueSet (item : Shape) : Shape := .record [("valueSet", .listOf item)]

/-- The members that an editor can fill in later. -/
def lateMembers : Shape := .record [("properties", .listOf .text)]

/-! ## The workspace -/

/-- How an editor carries out edits of several documents. -/
def workspaceEditShape : Shape :=
  .record (flags ["documentChanges", "normalizesLineEndings"] ++
    [("resourceOperations", .listOf .text), ("failureHandling", .text),
      ("changeAnnotationSupport", .record (flags ["groupsOnLabel"]))])

/-- How an editor searches for symbols of the workspace. -/
def workspaceSymbolShape : Shape :=
  .record (flags ["dynamicRegistration"] ++
    [("symbolKind", valueSet .int32), ("tagSupport", valueSet .int32)])

/-- The features of a workspace. -/
def workspaceShape : Shape :=
  .record (flags ["applyEdit", "workspaceFolders", "configuration"] ++
    [("workspaceEdit", workspaceEditShape), ("didChangeConfiguration", plainFeature),
      ("didChangeWatchedFiles", plainFeature), ("symbol", workspaceSymbolShape),
      ("executeCommand", plainFeature), ("semanticTokens", refreshFeature),
      ("codeLens", refreshFeature),
      ("fileOperations", .record (flags ["dynamicRegistration", "didCreate", "willCreate",
        "didRename", "willRename", "didDelete", "willDelete"]))])

/-! ## Documents -/

/-- How an editor completes words. -/
def completionShape : Shape :=
  .record (flags ["dynamicRegistration", "contextSupport"] ++
    [("completionItem", .record (flags ["snippetSupport", "commitCharactersSupport",
        "deprecatedSupport", "preselectSupport", "insertReplaceSupport"] ++
        [("documentationFormat", .listOf .text), ("tagSupport", valueSet .int32),
          ("resolveSupport", lateMembers), ("insertTextModeSupport", valueSet .int32)])),
      ("completionItemKind", valueSet .int32)])

/-- How an editor shows what a function takes. -/
def signatureHelpShape : Shape :=
  .record (flags ["dynamicRegistration", "contextSupport"] ++
    [("signatureInformation", .record (flags ["activeParameterSupport"] ++
        [("documentationFormat", .listOf .text),
          ("parameterInformation", .record (flags ["labelOffsetSupport"]))]))])

/-- How an editor lists the symbols of a document. -/
def documentSymbolShape : Shape :=
  .record (flags ["dynamicRegistration", "hierarchicalDocumentSymbolSupport", "labelSupport"] ++
    [("symbolKind", valueSet .int32), ("tagSupport", valueSet .int32)])

/-- How an editor offers actions on a stretch of a document. -/
def actionsShape : Shape :=
  .record (flags ["dynamicRegistration", "isPreferredSupport", "disabledSupport", "dataSupport",
      "honorsChangeAnnotations"] ++
    [("codeActionLiteralSupport", .record [("codeActionKind", valueSet .text)]),
      ("resolveSupport", lateMembers)])

/-- How an editor renames a symbol. -/
def renameShape : Shape :=
  .record (flags ["dynamicRegistration", "prepareSupport", "honorsChangeAnnotations"] ++
    [("prepareSupportDefaultBehavior", .int32)])

/-- How an editor shows remarks about a document. -/
def diagnosticsShape : Shape :=
  .record (flags ["relatedInformation", "versionSupport", "codeDescriptionSupport",
      "dataSupport"] ++
    [("tagSupport", valueSet .int32)])

/-- How an editor colours a document by the meaning of its words. -/
def semanticTokensShape : Shape :=
  .record (flags ["dynamicRegistration", "overlappingTokenSupport", "multilineTokenSupport"] ++
    [("requests", .record [("range", .settled (.flagOr (.record []))),
        ("full", .settled (.flagOr (.record (flags ["delta"]))))]),
      ("tokenTypes", .listOf .text), ("tokenModifiers", .listOf .text),
      ("formats", .listOf .text)])

/-- The features of documents. -/
def documentFeaturesShape : Shape :=
  .record
    [("synchronization", .record (flags
        ["dynamicRegistration", "willSave", "willSaveWaitUntil", "didSave"])),
      ("completion", completionShape),
      ("hover", .record (flags ["dynamicRegistration"] ++ [("contentFormat", .listOf .text)])),
      ("signatureHelp", signatureHelpShape), ("declaration", linkFeature),
      ("definition", linkFeature), ("typeDefinition", linkFeature),
      ("implementation", linkFeature), ("references", plainFeature),
      ("documentHighlight", plainFeature), ("documentSymbol", documentSymbolShape),
      ("codeAction", actionsShape), ("codeLens", plainFeature),
      ("documentLink", .record (flags ["dynamicRegistration", "tooltipSupport"])),
      ("colorProvider", plainFeature), ("formatting", plainFeature),
      ("rangeFormatting", plainFeature), ("onTypeFormatting", plainFeature),
      ("rename", renameShape), ("publishDiagnostics", diagnosticsShape),
      ("foldingRange", .record (flags ["dynamicRegistration", "lineFoldingOnly"] ++
        [("rangeLimit", .unsigned)])),
      ("selectionRange", plainFeature), ("linkedEditingRange", plainFeature),
      ("callHierarchy", plainFeature), ("semanticTokens", semanticTokensShape),
      ("moniker", plainFeature)]

/-! ## The whole -/

/-- The features of windows. -/
def windowShape : Shape :=
  .record (flags ["workDoneProgress"] ++
    [("showMessage", .record
        [("messageActionItem", .record (flags ["additionalPropertiesSupport"]))]),
      ("showDocument", .record (flags ["support"]))])

/-- What holds of an editor in general. -/
def generalShape : Shape :=
  .record
    [("regularExpressions", .record [("engine", .text), ("version", .text)]),
      ("markdown", .record [("parser", .text), ("version", .text)])]

/-- What an editor says it can do. -/
def capabilitiesShape : Shape :=
  .record
    [("workspace", workspaceShape), ("textDocument", documentFeaturesShape),
      ("window", windowShape), ("general", generalShape), ("experimental", .anything)]

end Server

end DottedNames
