/-
  The emitters of `codegen_emit.cc` that make up the generated header.

  What they write is a text of pieces: the literals of the generator and the names of the model, one
  line here for each `+=` of the source. The parts of a definition (its comment, its first line, its
  members, its end) are lists of their own. `EmitRegisterCall`, which nothing calls, and the emitters of
  the source file are left out.
-/
import Urpc.Lib.Template
import Urpc.Status

namespace Urpc.Generator

open Cxx Template

structure MethodModel where
  name : Bytes
  serviceFullName : Bytes
  requestType : Bytes
  responseType : Bytes
  requestInit : Bytes
  responseInit : Bytes
  path : Bytes
  form : MethodForm := .unary
  deriving DecidableEq

structure ServiceModel where
  name : Bytes
  fullName : Bytes
  methods : List MethodModel
  deriving DecidableEq

structure FileModel where
  package : Bytes
  sourceFile : Bytes
  services : List ServiceModel
  deriving DecidableEq

def formName : MethodForm → String
  | .serverStreaming => "::urpc::MethodForm::kServerStreaming"
  | .clientStreaming => "::urpc::MethodForm::kClientStreaming"
  | .bidi => "::urpc::MethodForm::kBidi"
  | .unary => "::urpc::MethodForm::kUnary"

def traitsHead (m : MethodModel) : Text := ["struct ", m.name, "Method \x7b\n"]

def traitsMembers (m : MethodModel) : Text := List.flatten [
  ["  using ReqType = ", m.requestType, ";\n",
   "  using ResType = ", m.responseType, ";\n",
   "  static constexpr ::urpc::MethodForm kForm = ", formName m.form, ";\n",
   "\n",
   "  static const char* service_name() \x7b return \"", m.serviceFullName, "\"; \x7d\n",
   "  static const char* method_name() \x7b return \"", m.name, "\"; \x7d\n",
   "  static const char* path() \x7b return \"", m.path, "\"; \x7d\n",
   "\n"],
  ["  static ReqType* ParseRequest(const char* data, size_t size,\n",
   "                               upb_Arena* arena) \x7b\n",
   "    return ", m.requestType, "_parse(data, size, arena);\n",
   "  \x7d\n",
   "  static ResType* ParseResponse(const char* data, size_t size,\n",
   "                                upb_Arena* arena) \x7b\n",
   "    return ", m.responseType, "_parse(data, size, arena);\n",
   "  \x7d\n",
   "  static const upb_MiniTable* ReqTable() \x7b return &", m.requestInit, "; \x7d\n",
   "  static const upb_MiniTable* ResTable() \x7b return &", m.responseInit, "; \x7d\n"]]

def emitTraits (m : MethodModel) : Text :=
  List.flatten [traitsHead m, traitsMembers m, ["\x7d;\n\n"]]

def emitInterfaceMethod (m : MethodModel) : Text :=
  match m.form with
  | .unary =>
      ["  virtual void ", m.name, "(::urpc::ServerContext& ctx,\n",
       "                    const ", m.requestType, "* request,\n",
       "                    ::urpc::UnaryDone<", m.responseType, "> done) \x7b\n",
       "    (void)ctx;\n",
       "    (void)request;\n",
       "    done(::urpc::Status(::urpc::StatusCode::kUnimplemented,\n",
       "                        \"method not implemented: ", m.name, "\"),\n",
       "         nullptr);\n",
       "  \x7d\n"]
  | .serverStreaming =>
      ["  virtual void ", m.name, "(::urpc::ServerContext& ctx,\n",
       "                    const ", m.requestType, "* request,\n",
       "                    ::urpc::ServerWriter<", m.responseType, ">& writer) \x7b\n",
       "    (void)ctx;\n",
       "    (void)request;\n",
       "    writer.Finish(::urpc::Status(\n",
       "        ::urpc::StatusCode::kUnimplemented,\n",
       "        \"method not implemented: ", m.name, "\"));\n",
       "  \x7d\n"]
  | .clientStreaming =>
      ["  virtual void ", m.name, "(::urpc::ServerContext& ctx,\n",
       "                    ::urpc::ServerReader<", m.requestType, ">& reader,\n",
       "                    ::urpc::UnaryDone<", m.responseType, "> done) \x7b\n",
       "    (void)ctx;\n",
       "    (void)reader;\n",
       "    done(::urpc::Status(::urpc::StatusCode::kUnimplemented,\n",
       "                        \"method not implemented: ", m.name, "\"),\n",
       "         nullptr);\n",
       "  \x7d\n"]
  | .bidi =>
      ["  virtual void ", m.name, "(::urpc::ServerContext& ctx,\n",
       "                    ::urpc::ServerReaderWriter<", m.requestType, ", ", m.responseType,
         ">& stream) \x7b\n",
       "    (void)ctx;\n",
       "    (void)stream;\n",
       "    stream.Finish(::urpc::Status(\n",
       "        ::urpc::StatusCode::kUnimplemented,\n",
       "        \"method not implemented: ", m.name, "\"));\n",
       "  \x7d\n"]

def emitProxyMethod (m : MethodModel) : Text :=
  match m.form with
  | .unary =>
      ["  // ", m.name, ": async form (callback fires exactly once;\n",
       "  // returns the call id, see Channel).\n",
       "  uint64_t ", m.name, "Async(const ", m.requestType, "* request,\n",
       "                         uint64_t timeout_ms,\n",
       "                         std::function<void(::urpc::Result<", m.responseType,
         ">)> done) \x7b\n",
       "    return ::urpc::detail::ProxyCallAsync<", m.name,
         "Method>(channel_, request, timeout_ms, std::move(done));\n",
       "  \x7d\n",
       "  // ", m.name, ": sync convenience form (fast-fails on the urpc\n",
       "  // event-loop thread).\n",
       "  ::urpc::Result<", m.responseType, "> ", m.name, "(const ", m.requestType,
         "* request, uint64_t timeout_ms) \x7b\n",
       "    return ::urpc::detail::ProxyCall<", m.name, "Method>(channel_, request, timeout_ms);\n",
       "  \x7d\n"]
  | .serverStreaming =>
      ["  // ", m.name, ": server streaming (single request; read the\n",
       "  // response sequence from the returned reader).\n",
       "  std::unique_ptr<::urpc::ClientReader<", m.responseType, ">> ", m.name, "(const ",
         m.requestType, "* request, uint64_t timeout_ms) \x7b\n",
       "    return ::urpc::OpenClientReader<", m.name, "Method>(channel_.lock(),\n",
       "        ", m.name, "Method::service_name(), ", m.name,
         "Method::method_name(), request, timeout_ms);\n",
       "  \x7d\n"]
  | .clientStreaming =>
      ["  // ", m.name, ": client streaming (write requests, then Finish\n",
       "  // for the single response).\n",
       "  std::unique_ptr<::urpc::ClientWriter<", m.requestType, ", ", m.responseType, ">> ",
         m.name, "(uint64_t timeout_ms) \x7b\n",
       "    return ::urpc::OpenClientWriter<", m.name, "Method>(channel_.lock(),\n",
       "        ", m.name, "Method::service_name(), ", m.name,
         "Method::method_name(), timeout_ms);\n",
       "  \x7d\n"]
  | .bidi =>
      ["  // ", m.name, ": bidirectional streaming.\n",
       "  std::unique_ptr<::urpc::ClientReaderWriter<", m.requestType, ", ", m.responseType, ">> ",
         m.name, "(uint64_t timeout_ms) \x7b\n",
       "    return ::urpc::OpenClientReaderWriter<", m.name, "Method>(channel_.lock(),\n",
       "        ", m.name, "Method::service_name(), ", m.name,
         "Method::method_name(), timeout_ms);\n",
       "  \x7d\n"]

/-- The loops that put a blank line between two methods. -/
def separated (emit : MethodModel → Text) : List MethodModel → Text
  | [] => []
  | [m] => emit m
  | m :: ms => List.flatten [emit m, ["\n"], separated emit ms]

/-- One entry of the table `kMethods`. -/
def emitTableEntry (m : MethodModel) : Text :=
  ["      \x7b\"", m.name, "\", \"", m.path, "\", ", formName m.form, "\x7d,\n"]

def interfaceComment (s : ServiceModel) : Text :=
  ["// Server-side pure virtual interface for ", s.fullName, ".\n",
   "// Inherit and override to implement the service; methods left\n",
   "// unoverridden answer UNIMPLEMENTED (FR-004).\n"]

def interfaceHead (s : ServiceModel) : Text := ["class I", s.name, " \x7b\n"]

def interfaceMembers (s : ServiceModel) : Text := List.flatten [
  [" public:\n",
   "  I", s.name, "() = default;\n",
   "  virtual ~I", s.name, "() = default;\n",
   "  I", s.name, "(const I", s.name, "&) = delete;\n",
   "  I", s.name, "& operator=(const I", s.name, "&) = delete;\n",
   "\n"],
  separated emitInterfaceMethod s.methods,
  ["\n",
   "  // Method table: mirrors the .proto service definition\n",
   "  // (registration + contract tests; declaration order preserved).\n",
   "  static constexpr ::urpc::MethodDescriptor kMethods[] = \x7b\n"],
  s.methods.flatMap emitTableEntry,
  ["  \x7d;\n"]]

def emitInterface (s : ServiceModel) : Text :=
  List.flatten [interfaceComment s, interfaceHead s, interfaceMembers s, ["\x7d;\n\n"]]

def proxyComment (s : ServiceModel) : Text :=
  ["// Client-side proxy for ", s.fullName, " (inherits the\n",
   "// same interface; the typed members below are the client calling\n",
   "// surface - no connection-management members).\n"]

def proxyHead (s : ServiceModel) : Text := ["class ", s.name, "Proxy : public I", s.name, " \x7b\n"]

def proxyMembers (s : ServiceModel) : Text := List.flatten [
  [" public:\n",
   "  explicit ", s.name, "Proxy(const std::shared_ptr<::urpc::Channel>& channel)\n",
   "      : channel_(channel) \x7b\x7d\n",
   "  explicit ", s.name, "Proxy(const std::weak_ptr<::urpc::Channel>& channel)\n",
   "      : channel_(channel) \x7b\x7d\n",
   "  explicit ", s.name, "Proxy(const ::urpc::Client& client)\n",
   "      : channel_(client.channel_ref()) \x7b\x7d\n",
   "\n"],
  separated emitProxyMethod s.methods,
  ["\n",
   " private:\n",
   "  std::weak_ptr<::urpc::Channel> channel_;\n"]]

def emitProxy (s : ServiceModel) : Text :=
  List.flatten [proxyComment s, proxyHead s, proxyMembers s, ["\x7d;\n\n"]]

/-- The call that `EmitRegister` writes, by the form of the method. -/
def emitRegisterCall (m : MethodModel) : Text :=
  match m.form with
  | .unary =>
      ["RegisterUnaryFor<", m.name, "Method>(\n",
       "      ", m.name, "Method::service_name(), ", m.name, "Method::method_name(),\n",
       "      [&impl](::urpc::ServerContext& ctx, const ", m.requestType, "* request,\n",
       "              ::urpc::UnaryDone<", m.responseType, "> done) \x7b\n",
       "        try \x7b\n",
       "          impl.", m.name, "(ctx, request, done);\n",
       "        \x7d catch (...) \x7b\n",
       "          done(::urpc::Status(::urpc::StatusCode::kInternal,\n",
       "                              \"service handler raised an exception\"),\n",
       "               nullptr);\n",
       "        \x7d\n",
       "      \x7d);\n"]
  | .serverStreaming =>
      ["RegisterServerStreamingFor<", m.name, "Method>(\n",
       "      ", m.name, "Method::service_name(), ", m.name, "Method::method_name(),\n",
       "      [&impl](::urpc::ServerContext& ctx, const ", m.requestType, "* request,\n",
       "              ::urpc::ServerWriter<", m.responseType, ">& writer) \x7b\n",
       "        try \x7b\n",
       "          impl.", m.name, "(ctx, request, writer);\n",
       "        \x7d catch (...) \x7b\n",
       "          writer.Finish(::urpc::Status(\n",
       "              ::urpc::StatusCode::kInternal,\n",
       "              \"service handler raised an exception\"));\n",
       "        \x7d\n",
       "      \x7d);\n"]
  | .clientStreaming =>
      ["RegisterClientStreamingFor<", m.name, "Method>(\n",
       "      ", m.name, "Method::service_name(), ", m.name, "Method::method_name(),\n",
       "      [&impl](::urpc::ServerContext& ctx,\n",
       "              ::urpc::ServerReader<", m.requestType, ">& reader,\n",
       "              ::urpc::UnaryDone<", m.responseType, "> done) \x7b\n",
       "        try \x7b\n",
       "          impl.", m.name, "(ctx, reader, std::move(done));\n",
       "        \x7d catch (...) \x7b\n",
       "          done(::urpc::Status(::urpc::StatusCode::kInternal,\n",
       "                              \"service handler raised an exception\"),\n",
       "               nullptr);\n",
       "        \x7d\n",
       "      \x7d);\n"]
  | .bidi =>
      ["RegisterBidiFor<", m.name, "Method>(\n",
       "      ", m.name, "Method::service_name(), ", m.name, "Method::method_name(),\n",
       "      [&impl](::urpc::ServerContext& ctx,\n",
       "              ::urpc::ServerReaderWriter<", m.requestType, ", ", m.responseType,
         ">& stream) \x7b\n",
       "        try \x7b\n",
       "          impl.", m.name, "(ctx, stream);\n",
       "        \x7d catch (...) \x7b\n",
       "          stream.Finish(::urpc::Status(\n",
       "              ::urpc::StatusCode::kInternal,\n",
       "              \"service handler raised an exception\"));\n",
       "        \x7d\n",
       "      \x7d);\n"]

/-- One trip round the loop of `EmitRegister`. -/
def emitRegisterMethod (m : MethodModel) : Text :=
  List.flatten [["  st = server."], emitRegisterCall m, ["  if (!st.ok()) return st;\n"]]

def registerBody (s : ServiceModel) : Text := List.flatten [
  ["  ::urpc::Status st;\n"],
  s.methods.flatMap emitRegisterMethod,
  ["  return ::urpc::Status::Ok();\n"]]

def registerComment : Text :=
  ["// Registers every method of `impl` on `server`: one call publishes\n",
   "// the whole service. Fails when the service name is already\n",
   "// registered. Handler exceptions are contained per call\n",
   "// (INTERNAL to that call; the server stays alive).\n"]

def registerHead (s : ServiceModel) : Text :=
  ["inline ::urpc::Status RegisterService(::urpc::Server& server, I", s.name, "& impl) \x7b\n"]

def emitRegister (s : ServiceModel) : Text :=
  List.flatten [registerComment, registerHead s, registerBody s, ["\x7d\n\n"]]

def openNamespace (part : Bytes) : Text := ["namespace ", part, " \x7b\n"]

/-- `OpenNamespaces`: the text so far, and the component that is being read. -/
def openNamespacesStep (acc : Text × Bytes) (c : UInt8) : Text × Bytes :=
  if c = 46 then (acc.1 ++ openNamespace acc.2, []) else (acc.1, acc.2 ++ [c])

def openNamespaces (package : Bytes) : Text :=
  let acc := package.foldl openNamespacesStep
    (["namespace urpc \x7b\nnamespace gen \x7b\n"], [])
  acc.1 ++ openNamespace acc.2

/-- The counter `depth` of `CloseNamespaces`. -/
def closeDepth (package : Bytes) : Nat := package.foldl (fun n c => if c = 46 then n + 1 else n) 3

def closeNamespaces (package : Bytes) : Text :=
  List.replicate (closeDepth package) "\x7d  // namespace\n"

def emitTraitsInto (s : ServiceModel) : Text := s.methods.flatMap emitTraits

/-- The `base` of `EmitHeader`; the difference of sizes wraps around for a short name, which is then
    kept as a whole. -/
def baseOf (sourceFile : Bytes) : Bytes :=
  if sourceFile.length < 6 then sourceFile else sourceFile.take (sourceFile.length - 6)

/-- `EmitHeader` up to the namespaces. -/
def emitPreamble (f : FileModel) : Text :=
  let base := baseOf f.sourceFile
  ["// Generated by protoc-gen-urpc (urpc spec 003-typed-service-interface / 004-streaming-rpc).\n",
   "// source: ", f.sourceFile, "\n",
   "// DO NOT EDIT! Deterministic output; regenerate via the standard build.\n",
   "#pragma once\n\n",
   "#include <cstddef>\n",
   "#include <cstdint>\n",
   "#include <functional>\n",
   "#include <memory>\n",
   "#include <string>\n\n",
   "#include \"", base, ".upb.h\"\n\n",
   "#include <urpc/client.h>\n",
   "#include <urpc/proxy.h>\n",
   "#include <urpc/server.h>\n",
   "#include <urpc/service.h>\n",
   "#include <urpc/stream.h>\n",
   "\n"]

/-- The loop of `EmitHeader`. -/
def emitService (s : ServiceModel) : Text :=
  emitTraitsInto s ++ emitInterface s ++ emitProxy s ++ emitRegister s

/-- What `EmitHeader` puts into the namespaces. -/
def emitBody (f : FileModel) : Text := "\n" :: f.services.flatMap emitService

def emitHeader (f : FileModel) : Text :=
  emitPreamble f ++ openNamespaces f.package ++ emitBody f ++ closeNamespaces f.package

end Urpc.Generator
