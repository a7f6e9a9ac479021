import T4P4SRuntime.Device.Pipeline

namespace Device

open P4v1

def Server.readDeviceConfig (disk : ReadDisk) (server : Server) (config : ReturnedConfig) :
    Server × ReturnedConfig :=
  let (file, config, _) := server.savedDeviceConfig.readConfig disk config
  ({ server with savedDeviceConfig := file }, config)

def Server.copyCookie (server : Server) (config : ReturnedConfig) : ReturnedConfig :=
  if server.hasConfigCookie then { config with cookie := some server.configCookie } else config

def devMgrGetPipelineConfig (disk : ReadDisk) (server : Server) (responseType : ResponseType)
    (config : ReturnedConfig) : Server × ReturnedConfig × Status :=
  match responseType with
  | .all =>
      let config := { config with p4info := some server.dm.p4info }
      let (server, config) := server.readDeviceConfig disk config
      (server, server.copyCookie config, Status.success)
  | .cookieOnly => (server, server.copyCookie config, Status.success)
  | .p4infoAndCookie =>
      let config := { config with p4info := some server.dm.p4info }
      (server, server.copyCookie config, Status.success)
  | .deviceConfigAndCookie =>
      let (server, config) := server.readDeviceConfig disk config
      (server, server.copyCookie config, Status.success)
  | .unrecognized _ => (server, config, Status.success)

end Device
